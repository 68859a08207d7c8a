import Hiview.Base.SysEventValues
import Hiview.EventStore.SysEventRepeatGuard

/-! Runs of the check for repetitions. The row of a key holds the last time at which an event of this
key was allowed to be packed; a row that has been deleted held a time that no later check would
have found within the window. -/
namespace Hiview.EventStore
open Assoc SysEventRepeatGuard Transition
open SysEventRepeatGuard (isKeyRepeat)

/-- A check of a fault event: its key, if it has a unique id, and whether it may be packed. -/
structure Checked where
  key : Option HashKey
  time : Nat
  marked : Bool

/-- Both events have a unique id, and they have the same domain, name and id. -/
def Checked.Same (event other : Checked) : Prop :=
  ∃ key, event.key = some key ∧ other.key = some key

/-- An event was marked exactly if no earlier one of the same key was marked less than the window
before. The latest check comes first. -/
def Exact (window : Nat) : List Checked → Prop
  | [] => True
  | event :: before =>
    (event.marked = true ↔
      ∀ earlier ∈ before, earlier.marked = true → event.Same earlier → ¬ event.time < earlier.time + window) ∧
    Exact window before

/-- The last time at which an event of the key was marked, 0 if there was none. -/
structure Latest (history : List Checked) (key : HashKey) (time : Nat) : Prop where
  upper : ∀ event ∈ history, event.marked = true → event.key = some key → event.time ≤ time
  reached : time ≠ 0 → ∃ event ∈ history, event.marked = true ∧ event.key = some key ∧ event.time = time

/-- The rows stand for the history: a missing one can be left out at all times from the clock on. -/
structure Tracks (window clock : Nat) (history : List Checked) (rows : List (HashKey × Nat)) : Prop where
  distinct : Distinct rows
  positive : ∀ event ∈ history, 0 < event.time
  past : ∀ event ∈ history, event.time ≤ clock
  rows : ∀ key, ∃ time, Latest history key time ∧
    (0 < time ∧ lookup rows key = some time ∨ lookup rows key = none ∧ (time = 0 ∨ time + window ≤ clock))

variable {window clock now : Nat} {history : List Checked} {rows : List (HashKey × Nat)} {key : HashKey}

theorem tracks_empty : Tracks window clock [] [] where
  distinct := List.nodup_nil
  positive := by simp
  past := by simp
  rows key := ⟨0, ⟨by simp, by simp⟩, .inr ⟨rfl, .inl rfl⟩⟩

variable {time : Nat}

theorem minValid_lt_iff (positive : 0 < time) : getMinValidTime window now < time ↔ now < time + window := by
  unfold getMinValidTime
  split <;> omega

theorem Tracks.repeated_iff (tracks : Tracks window clock history rows) (later : clock ≤ now) (key : HashKey) :
    getMinValidTime window now < (lookup rows key).getD 0 ↔
      ∃ earlier ∈ history, earlier.marked = true ∧ earlier.key = some key ∧ now < earlier.time + window := by
  obtain ⟨time, latest, ⟨positive, row⟩ | ⟨row, gone⟩⟩ := tracks.rows key
  · obtain ⟨event, member, marked, same, here⟩ := latest.reached (by omega)
    rw [row, Option.getD_some, minValid_lt_iff positive]
    constructor
    · intro within
      exact ⟨event, member, marked, same, by omega⟩
    · rintro ⟨earlier, there, allowed, sameKey, within⟩
      have bound := latest.upper earlier there allowed sameKey
      omega
  · rw [row, Option.getD_none]
    refine ⟨fun impossible => absurd impossible (Nat.not_lt_zero _), ?_⟩
    rintro ⟨earlier, there, allowed, sameKey, within⟩
    have bound := latest.upper earlier there allowed sameKey
    have positive := tracks.positive earlier there
    omega

theorem Latest.cons (latest : Latest history key time) {event : Checked}
    (other : event.marked = true → event.key ≠ some key) : Latest (event :: history) key time where
  upper := by
    intro found member marked same
    rcases List.mem_cons.mp member with new | before
    · rw [new] at marked same
      exact absurd same (other marked)
    · exact latest.upper found before marked same
  reached := by
    intro nonzero
    obtain ⟨found, member, rest⟩ := latest.reached nonzero
    exact ⟨found, List.mem_cons_of_mem _ member, rest⟩

theorem Tracks.unrecorded (tracks : Tracks window clock history rows) (later : clock ≤ now) (positive : 0 < now)
    (time : event.time = now) (silent : event.marked = true → event.key = none) :
    Tracks window now (event :: history) rows where
  distinct := tracks.distinct
  positive := List.forall_mem_cons.mpr ⟨by omega, tracks.positive⟩
  past := List.forall_mem_cons.mpr ⟨by omega, fun found member => (tracks.past found member).trans later⟩
  rows key := by
    obtain ⟨last, latest, row⟩ := tracks.rows key
    refine ⟨last, latest.cons fun marked => ?_, ?_⟩
    · rw [silent marked]
      intro same
      cases same
    · exact row.imp_right fun gone => ⟨gone.1, by omega⟩

/-- An event is marked and its row is set to the time of the check, while rows from before the window
may be deleted. -/
theorem Tracks.recorded (tracks : Tracks window clock history rows) (later : clock ≤ now) (positive : 0 < now)
    (distinct : Distinct next) (own : lookup next key = some now)
    (others : ∀ other, other ≠ key → lookup next other = lookup rows other ∨
      lookup next other = none ∧ ∀ time, lookup rows other = some time → time + window ≤ now) :
    Tracks window now (⟨some key, now, true⟩ :: history) next where
  distinct := distinct
  positive := List.forall_mem_cons.mpr ⟨positive, tracks.positive⟩
  past := List.forall_mem_cons.mpr ⟨Nat.le_refl _, fun found member => (tracks.past found member).trans later⟩
  rows other := by
    by_cases same : other = key
    · subst same
      refine ⟨now, ⟨?_, fun _ => ⟨_, List.mem_cons_self, rfl, rfl, rfl⟩⟩, .inl ⟨positive, own⟩⟩
      intro found member _ _
      rcases List.mem_cons.mp member with new | before
      · rw [new]
      · exact (tracks.past found before).trans later
    · obtain ⟨last, latest, row⟩ := tracks.rows other
      refine ⟨last, latest.cons fun _ sameKey => same (Option.some.inj sameKey).symm, ?_⟩
      rcases others other same with kept | ⟨deleted, old⟩
      · rw [kept]
        exact row.imp_right fun gone => ⟨gone.1, by omega⟩
      · right
        rcases row with ⟨_, present⟩ | ⟨_, gone⟩
        · exact ⟨deleted, .inr (old last present)⟩
        · exact ⟨deleted, by omega⟩

namespace SysEventRepeatDb
variable (db : SysEventRepeatDb)

theorem checkDbStoreValid_rows : db.checkDbStoreValid.rows = db.rows := by
  unfold checkDbStoreValid
  split <;> rfl

theorem insert_rows (key : HashKey) (time : Nat) : (db.insert key time).rows = db.rows ++ [(key, time)] := by
  rw [insert, checkDbStoreValid_rows]

theorem update_rows (key : HashKey) (time : Nat) :
    (db.update key time).rows = db.rows.map fun row => if row.1 = key then (row.1, time) else row := by
  rw [update, checkDbStoreValid_rows]

theorem checkAndClearDb_rows (time : Nat) :
    (db.checkAndClearDb time).rows = db.rows ∨
      (db.checkAndClearDb time).rows = db.rows.filter fun row => !decide (row.2 < time) := by
  unfold checkAndClearDb
  split
  · exact .inl rfl
  · right
    rw [refreshDbCount, clearHistory, checkDbStoreValid_rows]

end SysEventRepeatDb

theorem minValid_old (old : time < getMinValidTime window now) : time + window ≤ now := by
  unfold getMinValidTime at old
  split at old <;> omega

theorem minValid_le : getMinValidTime window now ≤ now := by
  unfold getMinValidTime
  split <;> omega

variable {db : SysEventRepeatDb}

section
variable (tracks : Tracks window clock history db.rows) (later : clock ≤ now) (positive : 0 < now)
include tracks later positive

theorem Tracks.inserted (fresh : lookup db.rows key = none) :
    Tracks window now (⟨some key, now, true⟩ :: history)
      ((db.insert key now).checkAndClearDb (getMinValidTime window now)).rows := by
  have distinct := tracks.distinct.append_fresh fresh now
  have own : lookup (db.rows ++ [(key, now)]) key = some now := by
    rw [lookup_append, fresh, lookup_cons, if_pos rfl]
    rfl
  have other {another : HashKey} (different : another ≠ key) :
      lookup (db.rows ++ [(key, now)]) another = lookup db.rows another := by
    rw [lookup_append, lookup_cons, if_neg (Ne.symm different)]
    exact Option.or_none
  rcases (db.insert key now).checkAndClearDb_rows (getMinValidTime window now) with kept | cleared
  · rw [kept, db.insert_rows]
    exact tracks.recorded later positive distinct own fun another different => .inl (other different)
  · rw [cleared, db.insert_rows]
    have filtered (another : HashKey) := lookup_filter_value distinct
      (fun time => !decide (time < getMinValidTime window now)) another
    refine tracks.recorded later positive ((List.filter_sublist.map Prod.fst).nodup distinct) ?_ ?_
    · rw [filtered, own]
      simpa using minValid_le
    · intro another different
      rw [filtered, other different]
      cases row : lookup db.rows another with
      | none => exact .inl rfl
      | some time =>
        by_cases old : time < getMinValidTime window now
        · refine .inr ⟨by simp [old], ?_⟩
          intro found same
          cases same
          exact minValid_old old
        · exact .inl (by simp [old])

theorem Tracks.updated (present : lookup db.rows key = some time) :
    Tracks window now (⟨some key, now, true⟩ :: history) (db.update key now).rows := by
  rw [db.update_rows]
  have changed (another : HashKey) := lookup_map_at db.rows key another fun _ => now
  refine tracks.recorded later positive (tracks.distinct.map_at key fun _ => now) ?_ ?_
  · rw [changed, if_pos rfl, present]
    rfl
  · intro another different
    exact .inl ((changed another).trans (if_neg different))

theorem Tracks.isKeyRepeat (key : HashKey) :
    ((isKeyRepeat window now db key).1 = true ↔
      ∃ earlier ∈ history, earlier.marked = true ∧ earlier.key = some key ∧ now < earlier.time + window) ∧
    Tracks window now (⟨some key, now, !(isKeyRepeat window now db key).1⟩ :: history)
      (isKeyRepeat window now db key).2.rows := by
  have opened : Tracks window clock history db.checkDbStoreValid.rows := by rwa [db.checkDbStoreValid_rows]
  have answer := opened.repeated_iff later key
  unfold SysEventRepeatGuard.isKeyRepeat SysEventRepeatDb.queryHappentime
  dsimp only
  split
  · rename_i within
    refine ⟨⟨fun _ => answer.mp within, fun _ => rfl⟩, ?_⟩
    exact opened.unrecorded later positive rfl (by simp)
  · rename_i without
    have notRepeated := mt answer.mpr without
    split
    · rename_i recorded
      cases row : lookup db.checkDbStoreValid.rows key with
      | none => simp [row] at recorded
      | some time => exact ⟨⟨fun same => absurd same Bool.false_ne_true, fun found => absurd found notRepeated⟩, opened.updated later positive row⟩
    · rename_i unrecorded
      refine ⟨⟨fun same => absurd same Bool.false_ne_true, fun found => absurd found notRepeated⟩, opened.inserted later positive ?_⟩
      obtain ⟨time, -, ⟨there, row⟩ | ⟨row, -⟩⟩ := opened.rows key
      · rw [row] at unrecorded
        exact absurd there unrecorded
      · exact row

end

section Run
variable (sha : List UInt8 → Option (List UInt8))

theorem getEventUniqueId_total (event : Base.SysEvent) : ∃ result, getEventUniqueId sha event = some result := by
  obtain ⟨⟨report, read⟩, opened⟩ := event.getters_total (Numeral.ascii "FINGERPRINT")
  obtain ⟨⟨eventData, next⟩, updated⟩ := read.asRawData_total
  rw [getEventUniqueId, opened]
  dsimp only [Option.bind_eq_bind, Option.bind_some, Option.pure_def]
  rw [updated]
  split <;> exact ⟨_, rfl⟩

/-- The key under which an event is looked for, if it has a unique id. -/
def hashKey (event : Base.SysEvent) : Option HashKey :=
  ((getEventUniqueId sha event).bind Prod.fst).map fun eventHash =>
    ⟨event.members.domain, event.members.eventName, eventHash⟩

/-- `IsLogPacked`: the bits that say whether the event may be packed. -/
def isLogPacked (log : UInt8) : Bool :=
  log >>> 5 != 1

structure State where
  db : SysEventRepeatDb
  clock : Nat
  history : List Checked

def State.start : State := ⟨.new [], 0, []⟩

/-- A check of an event at a time, which is positive and does not go back. -/
def step (window : Nat) (state : State) (label : Base.SysEvent × Nat) : Option State :=
  if 0 < label.2 ∧ state.clock ≤ label.2 then
    (check sha window label.2 state.db label.1).map fun (db, event) =>
      if label.1.members.eventType = 1 then
        ⟨db, label.2, ⟨hashKey sha label.1, label.2, isLogPacked event.log⟩ :: state.history⟩
      else ⟨db, label.2, state.history⟩
  else none

theorem check_fault (window now : Nat) (db : SysEventRepeatDb) (isFault : event.members.eventType = 1) :
    ∃ next, (hashKey sha event = none ∧ check sha window now db event = some (db, next) ∧
        isLogPacked next.log = true) ∨
      ∃ key, hashKey sha event = some key ∧
        check sha window now db event = some ((isKeyRepeat window now db key).2, next) ∧
        isLogPacked next.log = !(isKeyRepeat window now db key).1 := by
  obtain ⟨⟨uniqueId, read⟩, found⟩ := getEventUniqueId_total sha event
  have packed : isLogPacked (logAllowPack ||| logPacked) = true := rfl
  have repeated : isLogPacked (logNotAllowPack ||| logRepeat) = false := rfl
  simp only [check, isEventRepeat, hashKey, found, isFault]
  cases uniqueId with
  | none => exact ⟨_, .inl ⟨rfl, rfl, packed⟩⟩
  | some eventHash =>
    generalize keyed : (⟨event.members.domain, event.members.eventName, eventHash⟩ : HashKey) = key
    cases answer : (isKeyRepeat window now db key).1 with
    | true =>
      refine ⟨read.setLog (logNotAllowPack ||| logRepeat), .inr ⟨key, by simp [keyed], by simp [keyed, answer], ?_⟩⟩
      rw [answer]
      exact repeated
    | false =>
      refine ⟨read.setLog (logAllowPack ||| logPacked), .inr ⟨key, by simp [keyed], by simp [keyed, answer], ?_⟩⟩
      rw [answer]
      exact packed

structure Sound (window : Nat) (state : State) : Prop where
  tracks : Tracks window state.clock state.history state.db.rows
  exact : Exact window state.history

variable {sha}

theorem Tracks.later (tracks : Tracks window clock history rows) (later : clock ≤ now) :
    Tracks window now history rows where
  distinct := tracks.distinct
  positive := tracks.positive
  past event member := (tracks.past event member).trans later
  rows key := by
    obtain ⟨time, latest, row⟩ := tracks.rows key
    exact ⟨time, latest, row.imp id fun gone => ⟨gone.1, by omega⟩⟩

/-- A step keeps the rows in line with the history, and its own mark is right. -/
theorem step_sound {state : State} (sound : Sound window state) {event : Base.SysEvent} {now : Nat}
    (positive : 0 < now) (later : state.clock ≤ now) :
    ∃ next, step sha window state (event, now) = some next ∧ Sound window next ∧ next.clock = now := by
  unfold step
  rw [if_pos ⟨positive, later⟩]
  by_cases isFault : event.members.eventType = 1
  · obtain ⟨marked, ⟨noId, checked, packed⟩ | ⟨key, keyed, checked, packed⟩⟩ :=
      check_fault sha window now state.db isFault
    · rw [checked]
      refine ⟨_, rfl, ?_⟩
      dsimp only
      rw [if_pos isFault, noId, packed]
      refine ⟨⟨sound.tracks.unrecorded later positive rfl fun _ => rfl, ⟨?_, sound.exact⟩⟩, rfl⟩
      refine ⟨fun _ earlier _ _ same => ?_, fun _ => rfl⟩
      obtain ⟨key, impossible, -⟩ := same
      cases impossible
    · obtain ⟨answer, tracked⟩ := sound.tracks.isKeyRepeat later positive key
      rw [checked]
      refine ⟨_, rfl, ?_⟩
      dsimp only
      rw [if_pos isFault, keyed, packed]
      refine ⟨⟨tracked, ⟨?_, sound.exact⟩⟩, rfl⟩
      rw [Bool.not_eq_true', ← Bool.not_eq_true, answer]
      constructor
      · rintro unseen earlier member allowed ⟨other, here, there⟩ within
        cases here
        exact unseen ⟨earlier, member, allowed, there, within⟩
      · rintro unseen ⟨earlier, member, allowed, there, within⟩
        exact unseen earlier member allowed ⟨key, rfl, there⟩ within
  · rw [check, if_pos isFault]
    refine ⟨_, rfl, ?_⟩
    dsimp only
    rw [if_neg isFault]
    exact ⟨⟨sound.tracks.later later, sound.exact⟩, rfl⟩

/-- The times of the checks are positive and do not go back. -/
def Ticking : Nat → List (Base.SysEvent × Nat) → Prop
  | _, [] => True
  | clock, label :: rest => 0 < label.2 ∧ clock ≤ label.2 ∧ Ticking label.2 rest

theorem run_sound {state : State} (sound : Sound window state) {labels : List (Base.SysEvent × Nat)}
    (ticking : Ticking state.clock labels) :
    ∃ final, run (step sha window) state labels = some final ∧ Sound window final := by
  induction labels generalizing state with
  | nil => exact ⟨state, rfl, sound⟩
  | cons label rest ih =>
    obtain ⟨positive, later, following⟩ := ticking
    obtain ⟨next, stepped, kept, clock⟩ := @step_sound _ sha _ sound label.1 _ positive later
    rw [← clock] at following
    obtain ⟨final, ran, done⟩ := ih kept following
    refine ⟨final, ?_, done⟩
    rw [run, stepped]
    exact ran

/-- In every sequence of checks, a fault event is marked to be packed exactly if no earlier one of the
same domain, name and unique id was marked less than the repeat window before. -/
theorem marks_exact (sha : List UInt8 → Option (List UInt8)) (isBetaVersion : Bool)
    {labels : List (Base.SysEvent × Nat)} (ticking : Ticking 0 labels) :
    ∃ final, run (step sha (timeRange isBetaVersion)) .start labels = some final ∧
      Exact (timeRange isBetaVersion) final.history := by
  have start : Sound (timeRange isBetaVersion) State.start := ⟨tracks_empty, trivial⟩
  obtain ⟨final, ran, sound⟩ := @run_sound _ sha _ start labels ticking
  exact ⟨final, ran, sound.exact⟩

def crash : Base.SysEvent :=
  { Base.SysEvent.blank with
    builder := some (EventRaw.RawDataBuilder.new.appendValue (Numeral.ascii "FINGERPRINT") (.string [97]))
    members := { Base.Members.blank with eventType := 1 } }

/-- One repetition within the window of a day, and one behind it. -/
def crashes : List (Base.SysEvent × Nat) := [(crash, 5), (crash, 86404), (crash, 86405)]

theorem crashes_marked : Ticking 0 crashes ∧
    ∃ final, run (step (fun _ => none) (timeRange false)) .start crashes = some final ∧
      Exact (timeRange false) final.history := by
  have ticking : Ticking 0 crashes :=
    ⟨by decide, by decide, by decide, by decide, by decide, by decide, trivial⟩
  exact ⟨ticking, marks_exact (fun _ => none) false ticking⟩

example : (run (step (fun _ => none) (timeRange false)) .start crashes).map
    (fun final : State => final.history.map Checked.marked) = some [true, false, true] := by decide +kernel

end Run
end Hiview.EventStore
