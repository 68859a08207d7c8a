import Hiview.EventExport.EventExportTask
import Hiview.Lib.Transition

/-! The export switch of a module over any run of changes of the setting, observer
callbacks, events, export tasks and restarts: when an export leaves out what was
stored while the switch was off. -/
namespace Hiview.EventExport
open ExportDbManager EventExportUtil EventExportTask

/-- The setting and the callbacks it still owes; the record in the database; the
tasks that have synchronised it and not read their range; the ranges being
exported. What was stored while the setting was off and what was exported is kept
as well. -/
structure SwitchState where
  setting : Bool
  callbacks : Nat
  record : Option ExportDetailRecord
  sequence : SequenceView
  synced : Nat
  running : List (Int × Int)
  storedOff : List Int
  exported : List (Int × Int)
  deriving DecidableEq

/-- A callback reads the setting when it is delivered. A restart takes the process
down and skips ahead. -/
inductive SwitchLabel where
  | set (enabled : Bool)
  | callback
  | store
  | sync
  | range
  | report (endSeq : Int)
  | restart (skipped : Nat)
  deriving DecidableEq

namespace SwitchState

def initial (setting : Bool) (startSeq : Nat) : SwitchState :=
  ⟨setting, 0, none, ⟨startSeq, startSeq⟩, 0, [], [], []⟩

section
variable (state : SwitchState)

def notified : Option ExportDetailRecord :=
  if state.setting then handleExportSwitchOn state.sequence state.record
  else handleExportSwitchOff state.record

def step : SwitchLabel → Option SwitchState
  | .set enabled =>
    if enabled = state.setting then none
    else some { state with setting := enabled, callbacks := state.callbacks + 1 }
  | .callback =>
    if state.callbacks = 0 then none
    else some { state with callbacks := state.callbacks - 1, record := state.notified }
  | .store =>
    some { state with
      sequence := { state.sequence with curSeq := state.sequence.curSeq + 1 }
      storedOff := if state.setting then state.storedOff
        else state.storedOff ++ [state.sequence.curSeq] }
  | .sync =>
    let record := syncDbByExportSwitchStatus state.sequence state.record !state.setting
    some { state with record, synced := if state.setting then state.synced + 1 else state.synced }
  | .range =>
    if state.synced = 0 then none
    else match initReadRequest state.record state.sequence.curSeq with
      | none => some { state with synced := state.synced - 1 }
      | some range => some { state with
          synced := state.synced - 1, running := range :: state.running
          exported := range :: state.exported }
  | .report endSeq =>
    if state.running.any fun range => range.1 ≤ endSeq && endSeq ≤ range.2 then
      some { state with record := handleExportTaskFinished state.record endSeq }
    else none
  | .restart skipped =>
    let startSeq := state.sequence.curSeq + skipped
    some { state with callbacks := 0, sequence := ⟨startSeq, startSeq⟩, synced := 0, running := [] }

/-- No exported range contains what was stored while the setting was off. -/
def Withheld : Prop :=
  ∀ range ∈ state.exported, ∀ seq ∈ state.storedOff, ¬ (range.1 ≤ seq ∧ seq < range.2)

/-- The setting goes on when the database knows that it was off, or nothing has
been stored since; a task that has to enable the module again finds that nothing
was stored while the setting was off since the process started; a task reads its
range while the setting is on. -/
def Guard : SwitchLabel → Prop
  | .set true => getExportEnabledSeq state.record = invalidSeqVal ∨
      ∀ seq ∈ state.storedOff, seq < getExportEnabledSeq state.record
  | .sync => state.setting = true → getExportEnabledSeq state.record ≠ invalidSeqVal ∨
      isUnrecordedModule state.record = true ∨ ∀ seq ∈ state.storedOff, seq < state.sequence.startSeq
  | .range => state.setting = true
  | _ => True

instance : (label : SwitchLabel) → Decidable (Guard state label)
  | .set true => inferInstanceAs (Decidable (_ ∨ _))
  | .sync => inferInstanceAs (Decidable (_ → _))
  | .range => inferInstanceAs (Decidable (_ = _))
  | .set false | .callback | .store | .report _ | .restart _ => .isTrue trivial

structure Inv : Prop where
  started : 0 ≤ state.sequence.startSeq ∧ state.sequence.startSeq ≤ state.sequence.curSeq
  stored : ∀ seq ∈ state.storedOff, seq < state.sequence.curSeq
  ended : ∀ range ∈ state.exported, range.2 ≤ state.sequence.curSeq
  enabled : state.setting = true → getExportEnabledSeq state.record ≠ invalidSeqVal →
    ∀ seq ∈ state.storedOff, seq < getExportEnabledSeq state.record
  withheld : Withheld state

end

/-- The database enables nothing that was stored while the setting was off. -/
def Clear (record : Option ExportDetailRecord) (storedOff : List Int) : Prop :=
  getExportEnabledSeq record ≠ invalidSeqVal →
    ∀ seq ∈ storedOff, seq < getExportEnabledSeq record

theorem clear_changed {record : Option ExportDetailRecord} {storedOff : List Int} (clear : Clear record storedOff)
    (later : ∀ seq ∈ storedOff, seq < curSeq) :
    Clear (handleExportSwitchChanged record curSeq) storedOff := by
  rcases getExportEnabledSeq_changed record curSeq with changed | ⟨-, -, same⟩
  · intro _
    rw [changed]
    exact later
  · rw [same]
    exact clear

theorem clear_sync (inv : Inv state) (on : state.setting = true) (guard : Guard state .sync) :
    Clear (syncDbByExportSwitchStatus state.sequence state.record false) state.storedOff := by
  rw [syncDbByExportSwitchStatus, if_neg Bool.false_ne_true]
  split
  · case isTrue off =>
    refine clear_changed (fun valid => absurd off valid) ?_
    rw [getModuleExportEnabledSeq]
    split
    · exact inv.stored
    · case isFalse recorded =>
      rcases guard on with valid | unrecorded | early
      · exact absurd off valid
      · exact absurd unrecorded recorded
      · exact early
  · exact inv.enabled on

theorem withheld_range (inv : Inv state) (on : state.setting = true)
    (found : initReadRequest state.record state.sequence.curSeq = some range) :
    range.2 ≤ state.sequence.curSeq ∧ ∀ seq ∈ state.storedOff, seq < range.1 := by
  obtain ⟨valid, begins, -, ends⟩ := initReadRequest_spec found
  obtain ⟨enabled, low⟩ := enabled_le_begin valid
  refine ⟨ends, fun seq member => ?_⟩
  have below := inv.enabled on enabled seq member
  omega

theorem mem_stored {setting : Bool} {storedOff : List Int}
    (member : seq ∈ if setting then storedOff else storedOff ++ [curSeq]) :
    seq = curSeq ∨ seq ∈ storedOff := by
  split at member
  · exact .inr member
  · exact (List.mem_append.mp member).symm.imp List.mem_singleton.mp id

theorem step_inv {state next : SwitchState} (inv : Inv state) (guard : Guard state label)
    (stepped : step state label = some next) : Inv next := by
  have ⟨started, stored, ended, enabled, withheld⟩ := inv
  cases label with
  | set enable =>
    rw [step] at stepped
    split at stepped
    · cases stepped
    · cases stepped
      refine ⟨started, stored, ended, fun on valid => ?_, withheld⟩
      obtain rfl : enable = true := on
      exact guard.resolve_left valid
  | callback =>
    rw [step] at stepped
    split at stepped
    · cases stepped
    · cases stepped
      refine ⟨started, stored, ended, fun on => ?_, withheld⟩
      rw [notified, if_pos on]
      exact clear_changed (enabled on) stored
  | store =>
    cases stepped
    have later : state.sequence.curSeq ≤ state.sequence.curSeq + 1 := by omega
    refine ⟨⟨started.1, Int.le_trans started.2 later⟩, fun seq member => ?_,
      fun range member => Int.le_trans (ended range member) later, fun on valid => ?_,
      fun range exported seq member => ?_⟩
    · rcases mem_stored member with rfl | old
      · exact Int.lt_add_one_of_le (Int.le_refl _)
      · exact Int.lt_of_lt_of_le (stored seq old) later
    · rw [if_pos on]
      exact enabled on valid
    · rcases mem_stored member with rfl | old
      · have before := ended range exported
        omega
      · exact withheld range exported seq old
  | sync =>
    cases stepped
    refine ⟨started, stored, ended, fun on => ?_, withheld⟩
    have on : state.setting = true := on
    have clear := clear_sync inv on guard
    simp only [on]
    exact clear
  | range =>
    rw [step] at stepped
    split at stepped
    · cases stepped
    · split at stepped
      · cases stepped
        exact ⟨started, stored, ended, enabled, withheld⟩
      · case h_2 range found =>
        cases stepped
        obtain ⟨ends, early⟩ := withheld_range inv guard found
        refine ⟨started, stored, List.forall_mem_cons.mpr ⟨ends, ended⟩, enabled,
          List.forall_mem_cons.mpr ⟨fun seq member inside => ?_, withheld⟩⟩
        exact absurd inside.1 (Int.not_le.mpr (early seq member))
  | report endSeq =>
    rw [step] at stepped
    split at stepped
    · cases stepped
      refine ⟨started, stored, ended, ?_, withheld⟩
      simp only [getExportEnabledSeq_finished]
      exact enabled
    · cases stepped
  | restart skipped =>
    cases stepped
    have later : state.sequence.curSeq ≤ state.sequence.curSeq + skipped := by omega
    exact ⟨⟨Int.le_trans (Int.le_trans started.1 started.2) later, Int.le_refl _⟩, fun seq member => Int.lt_of_lt_of_le (stored seq member) later,
      fun range member => Int.le_trans (ended range member) later, enabled, withheld⟩

theorem initial_inv (setting : Bool) (startSeq : Nat) : Inv (initial setting startSeq) :=
  ⟨⟨Int.natCast_nonneg startSeq, Int.le_refl _⟩, nofun, nofun, fun _ valid => absurd rfl valid, nofun⟩

theorem withheld_of_guarded {setting : Bool} {startSeq : Nat} {labels : List SwitchLabel}
    {state : SwitchState}
    (guarded : Transition.Guarded step Guard (initial setting startSeq) labels)
    (ran : Transition.run step (initial setting startSeq) labels = some state) : Withheld state :=
  (Transition.run_guarded step_inv (initial_inv setting startSeq) guarded ran).withheld

/-- The switch is turned off and on again before its callbacks arrive. The database
never sees it off, and the event of that time is exported. -/
theorem not_withheld_unseen : ∃ state,
    Transition.run step (initial true 1)
        [.sync, .range, .set false, .store, .set true, .callback, .callback, .sync, .range] =
      some state ∧ ¬ Withheld state :=
  ⟨_, rfl, fun withheld =>
    withheld (1, 2) List.mem_cons_self 1 (List.mem_singleton_self 1) (by decide)⟩

theorem withheld_of_guarded_offOn : ∃ state,
    Transition.run step (initial true 1)
        [.sync, .range, .set false, .callback, .store, .set true, .callback, .sync, .range] =
      some state ∧ Withheld state := by
  have guarded : Transition.Guarded step Guard (initial true 1) [.sync, .range, .set false,
      .callback, .store, .set true, .callback, .sync, .range] := by decide
  exact ⟨_, rfl, withheld_of_guarded guarded rfl⟩

end SwitchState
end Hiview.EventExport
