import Hiview.EventRaw.RawData
import Hiview.Lib.Transition
import Mathlib.Data.List.Forall2

/-! `RawData` against lists of bytes. A program makes objects and calls their members;
the same calls on lists say what the objects should hold. A copy of an empty object
owns no buffer, so that nothing can be put into it, and an empty object is not
assigned at all. -/
namespace Hiview.EventRaw
open List Option

/-- A constructor or a member of `RawData`; objects go by their number. -/
inductive RawDataCall where
  | create
  | reserve (dataLen : Nat)
  | ofData (data : List UInt8)
  | copy (source : Nat)
  | assign (target source : Nat)
  | reset (target : Nat)
  | append (target : Nat) (data : List UInt8)
  | update (target : Nat) (data : List UInt8) (pos : Nat)
  | isEmpty (target : Nat)

/-- A change of one entry, if it is there. -/
def modifyAt {α : Type} (entries : List α) (index : Nat) (change : α → α) : Option (List α) :=
  entries[index]?.map fun entry => entries.set index (change entry)

namespace RawData

theorem nil_fits (dataLen : Nat) (bytes : List UInt8) (held : some [] = some bytes) : bytes.length ≤ dataLen := by
  cases held
  exact Nat.zero_le _

/-- `RawData(size_t)`. -/
def reserve (dataLen : Nat) : RawData := ⟨some [], dataLen, nil_fits dataLen⟩

/-- `operator=` of another object. -/
def assign (object data : RawData) : RawData :=
  if data.getDataLength = 0 then object else data.copy

def isEmpty (object : RawData) : Bool := object.getDataLength = 0 || object.data.isNone

def step (objects : List RawData) : RawDataCall → Option (List RawData)
  | .create => some (objects ++ [new])
  | .reserve dataLen => some (objects ++ [reserve dataLen])
  | .ofData data => some (objects ++ [ofData data])
  | .copy source => objects[source]?.map fun data => objects ++ [data.copy]
  | .assign target source => objects[source]?.bind fun data =>
    modifyAt objects target fun object => if target = source then object else object.assign data
  | .reset target => modifyAt objects target fun _ => new
  | .append target data => modifyAt objects target fun object => (object.append data).getD object
  | .update target data pos => modifyAt objects target fun object => (object.update data pos).getD object
  | .isEmpty target => modifyAt objects target id

/-- The bytes with others in place of those from `pos` on, where that is inside. -/
def listUpdate (bytes source : List UInt8) (pos : Nat) : List UInt8 :=
  if pos ≤ bytes.length then overwrite bytes source pos else bytes

/-- The calls on lists of bytes. -/
def listStep (lists : List (List UInt8)) : RawDataCall → Option (List (List UInt8))
  | .create | .reserve _ => some (lists ++ [[]])
  | .ofData data => some (lists ++ [data])
  | .copy source => lists[source]?.map fun bytes => lists ++ [bytes]
  | .assign target source => lists[source]?.bind fun bytes => modifyAt lists target fun _ => bytes
  | .reset target => modifyAt lists target fun _ => []
  | .append target data => modifyAt lists target (· ++ data)
  | .update target data pos => modifyAt lists target (listUpdate · data pos)
  | .isEmpty target => modifyAt lists target id

/-- An object is a list of bytes within its capacity. -/
structure Represents (object : RawData) (bytes : List UInt8) : Prop where
  data : object.getData = bytes
  length : object.getDataLength = bytes.length
  empty : object.isEmpty = bytes.isEmpty
  capacity : object.getDataLength ≤ object.capacity

/-- The call does on its object what it does on a list. -/
def Kept (objects : List RawData) : RawDataCall → Prop
  | .assign target source => ∀ object ∈ objects[target]?, ∀ data ∈ objects[source]?,
      target = source ∨ (data.getData = [] → object.getData = [])
  | .append target data => ∀ object ∈ objects[target]?, data = [] ∨ object.data ≠ none
  | .update target data pos => ∀ object ∈ objects[target]?, data = [] ∨ 0 < pos ∨ object.data ≠ none
  | _ => True

theorem represents_iff : Represents object bytes ↔ object.getData = bytes := by
  refine ⟨Represents.data, ?_⟩
  rintro rfl
  obtain ⟨data, capacity, fits⟩ := object
  cases data with
  | none => exact ⟨rfl, rfl, rfl, Nat.zero_le _⟩
  | some bytes =>
    refine ⟨rfl, rfl, ?_, fits bytes rfl⟩
    cases bytes <;> rfl

theorem represented_iff : List.Forall₂ Represents objects lists ↔ objects.map getData = lists := by
  have same : Represents = fun object bytes => object.getData = bytes :=
    funext fun _ => funext fun _ => propext represents_iff
  rw [same, ← forall₂_map_left_iff (f := getData) (R := Eq), forall₂_eq_eq_eq]

section Step
variable {objects : List RawData}

theorem modifyAt_iff :
    (∀ next later, modifyAt objects index change = some next →
        modifyAt (objects.map getData) index onList = some later → next.map getData = later) ↔
      ∀ object ∈ objects[index]?, (change object).getData = onList object.getData := by
  unfold modifyAt
  rw [List.getElem?_map]
  cases found : objects[index]? with
  | none => simp
  | some object =>
    have inside : index < objects.length := (List.getElem?_eq_some_iff.mp found).1
    constructor
    · intro always
      have same := congrArg (·[index]?) (always _ _ rfl rfl)
      simp only [map_set, List.getElem?_set, length_map, inside, if_true, Option.some.injEq] at same
      rintro _ ⟨⟩
      exact same
    · rintro same _ _ ⟨⟩ ⟨⟩
      rw [map_set, same object rfl]

theorem update_null {object : RawData} (missing : object.data = none) (source : List UInt8) (pos : Nat) :
    object.update source pos = none := by
  unfold update
  split
  · rfl
  · rename_i bytes present
    rw [missing] at present
    cases present

variable (object : RawData)

theorem update_empty (pos : Nat) : ((object.update [] pos).getD object).getData = object.getData := by
  unfold update
  split
  · rfl
  · rename_i bytes held
    split
    · dsimp only
      split
      · rw [getD_some, Holds.getData held]
        simp [getData, overwrite]
      · rfl
    · rfl

theorem update_outside {object : RawData} {pos : Nat} (outside : object.getDataLength < pos) (source : List UInt8) :
    object.update source pos = none := by
  unfold update
  split
  · rfl
  · rename_i bytes held
    rw [getDataLength, Holds.getData held] at outside
    exact dif_neg (Nat.not_le.mpr outside)

theorem update_getData_iff (data : List UInt8) (pos : Nat) :
    ((object.update data pos).getD object).getData = listUpdate object.getData data pos ↔
      data = [] ∨ 0 < pos ∨ object.data ≠ none := by
  by_cases nothing : data = []
  · subst nothing
    rw [update_empty, listUpdate]
    simp [overwrite]
  by_cases inside : pos ≤ object.getData.length
  · rw [listUpdate, if_pos inside]
    cases held : object.data with
    | some bytes =>
      have same := Holds.getData held
      obtain ⟨result, updated, contents⟩ := update_holds held (same ▸ inside) nothing
      rw [updated, getD_some, contents.getData, same]
      simp
    | none =>
      have empty : object.getData = [] := by rw [getData, held, getD_none]
      rw [empty, length_nil, Nat.le_zero] at inside
      rw [update_null held, getD_none, empty, inside]
      simp [overwrite, nothing]
  · have behind : 0 < pos := by omega
    rw [listUpdate, if_neg inside, update_outside (Nat.not_le.mp inside), getD_none]
    simp [behind]

theorem append_getData_iff (data : List UInt8) :
    ((object.append data).getD object).getData = object.getData ++ data ↔ data = [] ∨ object.data ≠ none := by
  cases held : object.data with
  | some bytes =>
    obtain ⟨result, appended, contents⟩ := append_holds held data
    rw [appended, getD_some, contents.getData, Holds.getData held]
    simp
  | none =>
    have empty : object.getData = [] := by rw [getData, held, getD_none]
    by_cases nothing : data = []
    · simp [append, nothing]
    · rw [append, if_neg nothing, update_null held, getD_none, empty]
      simp [nothing]

theorem assign_getData_iff (data : RawData) :
    (object.assign data).getData = data.getData ↔ (data.getData = [] → object.getData = []) := by
  rw [assign, getDataLength]
  by_cases empty : data.getData = []
  · rw [if_pos (by rw [empty]; rfl), empty]
    simp
  · rw [if_neg (mt eq_nil_of_length_eq_zero empty), copy_getData]
    simp [empty]

theorem kept_iff (call : RawDataCall) :
    Kept objects call ↔ ∀ next later, step objects call = some next →
      listStep (objects.map getData) call = some later → next.map getData = later := by
  cases call with
  | create => simp [Kept, step, listStep, new_holds.getData]
  | reserve dataLen =>
    have empty : (reserve dataLen).getData = [] := rfl
    simp [Kept, step, listStep, empty]
  | ofData data => simp [Kept, step, listStep, (ofData_holds data).getData]
  | copy source =>
    simp [Kept, step, listStep, List.getElem?_map, true_iff]
    cases objects[source]? with
    | none => simp
    | some data => simp [copy_getData]
  | assign target source =>
    simp [Kept, step, listStep, List.getElem?_map]
    cases held : objects[source]? with
    | none => simp
    | some data =>
      simp [modifyAt_iff, mem_def, forall_eq']
      refine forall_congr' fun object => forall_congr' fun found => ?_
      by_cases same : target = source
      · subst same
        obtain rfl := some_inj.mp (held.symm.trans found)
        simp
      · rw [if_neg same, assign_getData_iff, or_iff_right same]
  | reset target =>
    rw [step, listStep, modifyAt_iff]
    exact iff_of_true trivial fun _ _ => new_holds.getData
  | append target data =>
    rw [step, listStep, modifyAt_iff]
    simp [append_getData_iff, Kept]
  | update target data pos =>
    rw [step, listStep, modifyAt_iff]
    simp [update_getData_iff, Kept]
  | isEmpty target =>
    rw [step, listStep, modifyAt_iff]
    exact iff_of_true trivial fun _ _ => rfl

theorem listStep_enabled {next : List RawData} (stepped : step objects call = some next) :
    ∃ later, listStep (objects.map getData) call = some later := by
  have modified {index : Nat} {change : RawData → RawData} {onList : List UInt8 → List UInt8}
      {next : List RawData} (stepped : modifyAt objects index change = some next) :
      ∃ later, modifyAt (objects.map getData) index onList = some later := by
    obtain ⟨object, found, -⟩ := map_eq_some_iff.mp stepped
    exact ⟨_, by rw [modifyAt, List.getElem?_map, found]; rfl⟩
  cases call with
  | create | reserve | ofData => exact ⟨_, rfl⟩
  | copy source =>
    obtain ⟨data, found, -⟩ := map_eq_some_iff.mp stepped
    exact ⟨_, by rw [listStep, List.getElem?_map, found]; rfl⟩
  | assign target source =>
    obtain ⟨data, found, assigned⟩ := bind_eq_some_iff.mp stepped
    rw [listStep, List.getElem?_map, found]
    exact modified assigned
  | reset | append | update | isEmpty => exact modified stepped

end Step

/-- After every call each object is the list of bytes that the calls make of it, exactly if
no nonempty bytes went into an object without a buffer and no empty object was assigned to
another that was not empty. -/
theorem represented_iff_kept (calls : List RawDataCall) :
    (∀ taken rest objects, calls = taken ++ rest → Transition.run step [] taken = some objects →
        ∃ lists, Transition.run listStep [] taken = some lists ∧ List.Forall₂ Represents objects lists) ↔
      Transition.Guarded step Kept [] calls := by
  refine (Transition.guarded_iff_related ?_ ?_ List.Forall₂.nil).symm
  · intro objects lists call next related stepped
    obtain rfl := represented_iff.mp related
    exact listStep_enabled stepped
  · intro objects lists call related
    obtain rfl := represented_iff.mp related
    simp [represented_iff]
    exact kept_iff call

/-- A copy of an empty object takes no bytes, and an object that an empty one is assigned to
keeps its own. -/
theorem empty_copies_unrepresented :
    (∃ objects lists,
      Transition.run step [] [.create, .copy 0, .append 1 [1]] = some objects ∧
        Transition.run listStep [] [.create, .copy 0, .append 1 [1]] = some lists ∧
        objects.map getData = [[], []] ∧ lists = [[], [1]]) ∧
    ∃ objects lists,
      Transition.run step [] [.create, .ofData [1], .assign 1 0] = some objects ∧
        Transition.run listStep [] [.create, .ofData [1], .assign 1 0] = some lists ∧
        objects.map getData = [[], [1]] ∧ lists = [[], []] :=
  ⟨⟨_, _, rfl, rfl, rfl, rfl⟩, _, _, rfl, rfl, rfl, rfl⟩

end RawData
end Hiview.EventRaw
