import Hiview.Base.SysEvent

/-! The two counters that `SysEvent` keeps over all its objects, through every
sequence of constructions, calls and destructions. Beside each object stands the
size that its construction added, if it was counted. -/
namespace Hiview.Base
open List
open SysEvent (accepts new setId setLog step)

open EventRaw

/-- A live object and what its construction added to the size. -/
structure Live where
  event : SysEvent
  added : Option Int32

structure Accounts where
  totalCount : UInt32
  totalSize : Int64
  /-- In the order of construction; `none` once destroyed. -/
  objects : List (Option Live)

/-- The `int32_t` in front of the block. -/
def blockSize (rawData : RawData) : Int32 :=
  (UInt32.ofNat (Bytes.value (rawData.getData.take 4))).toInt32

/-- What the destructor subtracts: the size of the block held then, if there is one. -/
def heldSize (event : SysEvent) : Int32 :=
  match event.rawData with
  | some rawData => if rawData.data.isSome then blockSize rawData else 0
  | none => 0

section
variable (accounts : Accounts)

namespace Accounts

def initial : Accounts := ⟨0, 0, []⟩

/-- The constructor: data that it refuses is not counted. -/
def construct (rawData : Option RawData) : Accounts :=
  match rawData.filter SysEvent.accepts with
  | none => { accounts with objects := accounts.objects ++ [some ⟨SysEvent.new rawData, none⟩] }
  | some accepted => {
      totalCount := accounts.totalCount + 1
      totalSize := accounts.totalSize + (blockSize accepted).toInt64
      objects := accounts.objects ++ [some ⟨SysEvent.new rawData, some (blockSize accepted)⟩] }

def release (event : SysEvent) : Accounts :=
  let totalCount := if accounts.totalCount > 0 then accounts.totalCount - 1 else accounts.totalCount
  let totalSize := accounts.totalSize - (heldSize event).toInt64
  { accounts with totalCount, totalSize := if totalSize < 0 then 0 else totalSize }

end Accounts

inductive Lifetime where
  | construct (rawData : Option RawData)
  | call (index : Nat) (call : Call)
  | destroy (index : Nat)

/-- One step of the program on its events; calls and destructions need a live object. -/
def Accounts.step (doubleText : UInt64 → List UInt8) (accounts : Accounts) :
    Lifetime → Option Accounts
  | .construct rawData => some (accounts.construct rawData)
  | .call index call => do
    let live ← (← accounts.objects[index]?)
    let event ← live.event.step doubleText call
    return { accounts with objects := accounts.objects.set index (some { live with event }) }
  | .destroy index => do
    let live ← (← accounts.objects[index]?)
    return { accounts.release live.event with objects := accounts.objects.set index none }

/-- The sizes that the live counted objects added. -/
def counted (objects : List (Option Live)) : List Int32 :=
  objects.filterMap fun object => object.bind Live.added

def total (sizes : List Int32) : Int := sizes.foldr (fun size rest => size.toInt + rest) 0

/-- The counters say how many counted objects are live and what they added. -/
def Accounted : Prop :=
  accounts.totalCount.toNat = (counted accounts.objects).length ∧
    accounts.totalSize.toInt = total (counted accounts.objects)

instance : DecidablePred Accounted := fun _ => inferInstanceAs (Decidable (_ ∧ _))

/-- The counters take a destruction well: an object that was not counted goes only
while none is counted, and a counted one still holds a block of the size it added
— or it is the only size left, and more is subtracted than there is. -/
def Settles (live : Live) : Prop :=
  match live.added with
  | none => accounts.totalCount = 0
  | some added =>
    (heldSize live.event = added ∧ added.toInt64 ≤ accounts.totalSize) ∨
      (accounts.totalSize = added.toInt64 ∧ accounts.totalSize < (heldSize live.event).toInt64)

/-- The steps after which the counters are right again. -/
def Exact : Lifetime → Prop
  | .construct rawData =>
    (rawData.filter SysEvent.accepts).isSome = true → accounts.totalCount ≠ 4294967295
  | .call _ _ => True
  | .destroy index => ∀ live ∈ accounts.objects[index]?.join, Settles accounts live

section Sizes

theorem total_append (first second : List Int32) : total (first ++ second) = total first + total second := by
  induction first with
  | nil => exact (Int.zero_add _).symm
  | cons size rest ih =>
    change size.toInt + total (rest ++ second) = size.toInt + total rest + total second
    rw [ih, Int.add_assoc]

theorem total_bounds (sizes : List Int32) :
    -(2147483648 * sizes.length : Int) ≤ total sizes ∧
      total sizes ≤ 2147483647 * sizes.length := by
  induction sizes with
  | nil => decide
  | cons size rest ih =>
    have low := size.le_toInt
    have high := size.toInt_lt
    change _ ≤ size.toInt + total rest ∧ size.toInt + total rest ≤ _
    rw [length_cons]
    omega

end Sizes

section Objects
variable {doubleText : UInt64 → List UInt8}

theorem initBuilder_rawData {event next : SysEvent} (opened : event.initBuilder = some (builder, next)) :
    next.rawData = event.rawData := by
  rw [SysEvent.initBuilder] at opened
  split at opened
  · cases opened
    rfl
  · obtain ⟨made, -, same⟩ := Option.map_eq_some_iff.mp opened
    cases same
    rfl

theorem tryToUpdateRawData_blank {event : SysEvent} (absent : event.rawData = none) :
    event.tryToUpdateRawData = some (false, event) := by
  have missing : event.rawData.isNone = true := by rw [absent]; rfl
  rw [SysEvent.tryToUpdateRawData, if_pos missing]
  rfl

theorem step_rawData_none {event next : SysEvent} (absent : event.rawData = none)
    (stepped : event.step doubleText call = some next) : next.rawData = none := by
  cases call with
  | setEventValue _ _ _ | setEventCString _ _ | removeParam _ =>
    obtain ⟨⟨builder, opened⟩, made, rest⟩ := Option.bind_eq_some_iff.mp stepped
    cases rest
    exact (initBuilder_rawData made).trans absent
  | setId id =>
    cases stepped
    rw [setId, absent, Option.map_none]
  | setLog log =>
    cases stepped
    rw [setLog, absent, Option.map_none]
  | get key =>
    obtain ⟨⟨report, after⟩, read, rfl⟩ := Option.map_eq_some_iff.mp stepped
    obtain ⟨⟨builder, opened⟩, made, rest⟩ := Option.bind_eq_some_iff.mp read
    cases rest
    exact (initBuilder_rawData made).trans absent
  | asRawData =>
    rw [step, SysEvent.asRawData, tryToUpdateRawData_blank absent] at stepped
    cases stepped
    exact absent
  | asJsonStr =>
    rw [step, tryToUpdateRawData_blank absent] at stepped
    cases stepped
    exact absent

theorem split_at (found : objects[index]? = some object) : ∃ front back, objects = front ++ object :: back ∧
      ∀ other, objects.set index other = front ++ other :: back := by
  obtain ⟨inside, rfl⟩ := List.getElem?_eq_some_iff.mp found
  refine ⟨objects.take index, objects.drop (index + 1), ?_, fun other => ?_⟩
  · rw [getElem_cons_drop, take_append_drop]
  · rw [set_eq_take_append_cons_drop, if_pos inside]

theorem counted_middle (front back : List (Option Live)) (object : Option Live) :
    (counted (front ++ object :: back)).length =
        (counted (front ++ back)).length + (object.bind Live.added).toList.length ∧
      total (counted (front ++ object :: back)) =
        total (counted (front ++ back)) + total (object.bind Live.added).toList := by
  have middle : counted (object :: back) = (object.bind Live.added).toList ++ counted back := by
    rw [counted, filterMap_cons]
    cases object.bind Live.added <;> rfl
  have whole : counted (front ++ object :: back) =
      counted front ++ ((object.bind Live.added).toList ++ counted back) := by
    rw [← middle]
    exact filterMap_append
  have others : counted (front ++ back) = counted front ++ counted back := filterMap_append
  rw [whole, others]
  simp [total_append]
  omega

/-- Objects that were not counted hold no block. -/
def Tidy : Prop :=
  ∀ live, some live ∈ accounts.objects → live.added = none → live.event.rawData = none

end Objects

end

section Exactness
variable {accounts : Accounts}

theorem construct_exact (accounted : Accounted accounts) (rawData : Option RawData) :
    Exact accounts (.construct rawData) ↔ Accounted (accounts.construct rawData) := by
  obtain ⟨count, size⟩ := accounted
  cases kept : rawData.filter accepts with
  | none =>
    have appended := counted_middle accounts.objects [] (some ⟨new rawData, none⟩)
    rw [append_nil] at appended
    have same : Accounted (accounts.construct rawData) := by
      simp only [Accounts.construct, kept, Accounted, appended, count, size]
      exact ⟨rfl, (Int.add_zero _).symm⟩
    simp only [Exact, kept, Option.isSome_none, same, iff_true]
    exact fun impossible => nomatch impossible
  | some accepted =>
    have appended := counted_middle accounts.objects []
      (some ⟨new rawData, some (blockSize accepted)⟩)
    rw [append_nil] at appended
    have one : total (Option.bind (some (Live.mk (new rawData) (some (blockSize accepted))))
        Live.added).toList = (blockSize accepted).toInt := Int.add_zero _
    have bounds := total_bounds (counted accounts.objects)
    have low := (blockSize accepted).le_toInt
    have high := (blockSize accepted).toInt_lt
    have small := accounts.totalCount.toNat_lt
    have sum : (accounts.totalSize + (blockSize accepted).toInt64).toInt =
        total (counted accounts.objects) + (blockSize accepted).toInt := by
      rw [Int64.toInt_add, Int32.toInt_toInt64, size]
      exact Int.bmod_eq_of_le (by omega) (by omega)
    have full : accounts.totalCount = 4294967295 ↔ accounts.totalCount.toNat = 4294967295 :=
      UInt32.toNat_inj.symm
    simp only [Exact, kept, Option.isSome_some, Accounts.construct, Accounted, appended, one, sum,
      and_true, UInt32.toNat_add, count, forall_const, ne_eq, full]
    simp only [Option.bind_some, Option.toList_some, length_singleton]
    change _ ↔ (_ + 1) % 4294967296 = _
    omega

theorem release_totalCount (accounts : Accounts) (event : SysEvent) :
    (accounts.release event).totalCount.toNat = accounts.totalCount.toNat - 1 := by
  simp [Accounts.release]
  split
  · rename_i positive
    exact UInt32.toNat_sub_of_le _ _ positive
  · rename_i zero
    rw [UInt32.not_lt, UInt32.le_zero_iff] at zero
    rw [zero]
    rfl

theorem release_totalSize (accounted : Accounted accounts) (event : SysEvent) :
    (accounts.release event).totalSize.toInt =
      if accounts.totalSize.toInt - (heldSize event).toInt < 0 then 0
      else accounts.totalSize.toInt - (heldSize event).toInt := by
  have bounds := total_bounds (counted accounts.objects)
  have low := (heldSize event).le_toInt
  have high := (heldSize event).toInt_lt
  have small := accounts.totalCount.toNat_lt
  have difference : (accounts.totalSize - (heldSize event).toInt64).toInt =
      accounts.totalSize.toInt - (heldSize event).toInt := by
    obtain ⟨count, size⟩ := accounted
    rw [Int64.toInt_sub, Int32.toInt_toInt64]
    exact Int.bmod_eq_of_le (by omega) (by omega)
  simp [Accounts.release, Int64.lt_iff_toInt_lt, difference, Int64.toInt_zero]
  split
  · exact Int64.toInt_zero
  · exact difference

theorem destroy_exact (accounted : Accounted accounts) (tidy : Tidy accounts)
    (found : accounts.objects[index]? = some (some live)) :
    Settles accounts live ↔
      Accounted { accounts.release live.event with objects := accounts.objects.set index none } := by
  have released := release_totalCount accounts live.event
  have remaining := release_totalSize accounted live.event
  have bounds := total_bounds (counted accounts.objects)
  obtain ⟨count, size⟩ := accounted
  obtain ⟨front, back, objects, others⟩ := split_at found
  have member : some live ∈ accounts.objects := mem_of_getElem? found
  have before := counted_middle front back (some live)
  have after := counted_middle front back none
  rw [← objects] at before
  simp [Accounted, others, after, released, remaining]
  simp only [Option.bind_some] at before ⊢
  cases recorded : live.added with
  | none =>
    have held : heldSize live.event = 0 := by rw [heldSize, tidy live member recorded]
    have empty : accounts.totalCount = 0 ↔ accounts.totalCount.toNat = 0 := UInt32.toNat_inj.symm
    simp only [recorded, Option.toList_none, length_nil] at before
    simp [Settles, recorded, held, empty, Int32.toInt_zero]
    split <;> omega
  | some added =>
    have one : total [added] = added.toInt := Int.add_zero _
    have nothing : total ([] : List Int32) = 0 := rfl
    have same : heldSize live.event = added ↔ (heldSize live.event).toInt = added.toInt :=
      Int32.toInt_inj.symm
    have only : accounts.totalSize = added.toInt64 ↔ accounts.totalSize.toInt = added.toInt := by
      rw [← Int64.toInt_inj, Int32.toInt_toInt64]
    simp only [recorded, Option.toList_some, length_singleton, one] at before
    simp [Settles, recorded, same, only, Int64.le_iff_toInt_le, Int64.lt_iff_toInt_lt, Int32.toInt_toInt64, nothing]
    omega

end Exactness

section Runs
variable {doubleText : UInt64 → List UInt8} {accounts next : Accounts} {label : Lifetime}

theorem call_inv (stepped : accounts.step doubleText (.call index call) = some next) :
    ∃ live event, accounts.objects[index]? = some (some live) ∧
      live.event.step doubleText call = some event ∧
      next = { accounts with objects := accounts.objects.set index (some { live with event }) } := by
  obtain ⟨object, found, rest⟩ := Option.bind_eq_some_iff.mp stepped
  obtain ⟨live, rfl, calling⟩ := Option.bind_eq_some_iff.mp rest
  obtain ⟨event, moved, returned⟩ := Option.bind_eq_some_iff.mp calling
  cases returned
  exact ⟨live, event, found, moved, rfl⟩

theorem destroy_inv (stepped : accounts.step doubleText (.destroy index) = some next) :
    ∃ live, accounts.objects[index]? = some (some live) ∧
      next = { accounts.release live.event with objects := accounts.objects.set index none } := by
  obtain ⟨object, found, rest⟩ := Option.bind_eq_some_iff.mp stepped
  obtain ⟨live, rfl, returned⟩ := Option.bind_eq_some_iff.mp rest
  cases returned
  exact ⟨live, found, rfl⟩

theorem destroy_eq (found : accounts.objects[index]? = some (some live)) :
    accounts.step doubleText (.destroy index) =
      some { accounts.release live.event with objects := accounts.objects.set index none } := by
  simp only [Accounts.step, found, Option.bind_eq_bind, Option.bind_some]
  rfl

theorem call_accounted (accounted : Accounted accounts)
    (stepped : accounts.step doubleText (.call index call) = some next) : Accounted next := by
  obtain ⟨live, event, found, -, rfl⟩ := call_inv stepped
  obtain ⟨front, back, objects, others⟩ := split_at found
  have before := counted_middle front back (some live)
  have after := counted_middle front back (some { live with event })
  rw [Accounted, objects] at accounted
  simp [Accounted, others, after]
  rw [before.1, before.2] at accounted
  exact accounted

theorem step_tidy (tidy : Tidy accounts) (stepped : accounts.step doubleText label = some next) :
    Tidy next := by
  cases label with
  | construct rawData =>
    cases stepped
    intro live member uncounted
    rw [Accounts.construct] at member
    split at member
    · rename_i refused
      rcases mem_append.mp member with earlier | last
      · exact tidy live earlier uncounted
      · obtain ⟨⟩ := mem_singleton.mp last
        simp [new, refused]
        rfl
    · rcases mem_append.mp member with earlier | last
      · exact tidy live earlier uncounted
      · obtain ⟨⟩ := mem_singleton.mp last
        cases uncounted
  | call index call =>
    obtain ⟨old, event, found, moved, rfl⟩ := call_inv stepped
    intro live member uncounted
    rcases mem_or_eq_of_mem_set member with earlier | changed
    · exact tidy live earlier uncounted
    · obtain ⟨⟩ := changed
      exact step_rawData_none (tidy old (mem_of_getElem? found) uncounted) moved
  | destroy index =>
    obtain ⟨old, found, rfl⟩ := destroy_inv stepped
    intro live member uncounted
    rcases mem_or_eq_of_mem_set member with earlier | gone
    · exact tidy live earlier uncounted
    · cases gone

theorem step_exact (accounted : Accounted accounts) (tidy : Tidy accounts) (label : Lifetime) :
    Exact accounts label ↔ ∀ next, accounts.step doubleText label = some next → Accounted next := by
  cases label with
  | construct rawData =>
    rw [construct_exact accounted rawData]
    exact ⟨fun exactly next stepped => Option.some.inj stepped ▸ exactly, fun all => all _ rfl⟩
  | call index call => exact ⟨fun _ next stepped => call_accounted accounted stepped, fun _ => trivial⟩
  | destroy index =>
    constructor
    · intro settles next stepped
      obtain ⟨live, found, rfl⟩ := destroy_inv stepped
      exact (destroy_exact accounted tidy found).mp (settles live (by rw [found]; rfl))
    · intro all live present
      have found : accounts.objects[index]? = some (some live) := Option.join_eq_some_iff.mp present
      exact (destroy_exact accounted tidy found).mpr (all _ (destroy_eq found))

/-- Both counters are right all along a run exactly when every step is one they
take well. -/
theorem accounted_iff_guarded (doubleText : UInt64 → List UInt8) (labels : List Lifetime) :
    Transition.Guarded (Accounts.step doubleText) Exact .initial labels ↔
      ∀ taken rest final, labels = taken ++ rest →
        Transition.run (Accounts.step doubleText) .initial taken = some final → Accounted final :=
  have initial : Accounted .initial ∧ Tidy .initial := ⟨by decide, fun _ member => nomatch member⟩
  Transition.guarded_iff (fun inv => step_exact inv.1 inv.2 _)
    (fun inv stepped accounted => ⟨accounted, step_tidy inv.2 stepped⟩) And.left initial

/-- An object without data is destroyed while a counted one lives. -/
def uncountedDestroyed : List Lifetime :=
  [.construct RawDataBuilder.new.build, .construct none, .destroy 1]

/-- One of two objects is destroyed after its block has grown. -/
def grownDestroyed : List Lifetime :=
  [.construct RawDataBuilder.new.build, .construct RawDataBuilder.new.build,
    .call 0 (.setEventValue [75] (.string [120]) false), .call 0 .asRawData, .destroy 0]

/-- The counters and the sizes they should stand for after a run. -/
def outcome (labels : List Lifetime) : Option (UInt32 × Int64 × List Int32) :=
  (Transition.run (Accounts.step fun _ => []) .initial labels).map fun accounts =>
    (accounts.totalCount, accounts.totalSize, counted accounts.objects)

theorem counters_drift : outcome uncountedDestroyed = some (0, 89, [89]) ∧
    outcome grownDestroyed = some (1, 84, [89]) := by decide +kernel

end Runs
end Hiview.Base
