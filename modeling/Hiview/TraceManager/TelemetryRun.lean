import Hiview.Lib.Transition
import Hiview.TraceManager.TelemetryStateMachine

/-! When the telemetry trace is on. Beside the machine a run keeps account of who
needs the trace: the `TraceOn` calls that no `TraceOff` has matched, and the accepted
ends of `PostOn` that no `TimeOut` has reached. A `TraceOff` that comes while an end is
pending does not give its count back. -/
namespace Hiview.TraceManager
open List
open TeleMetryStateMachine (call transToInitState)

structure TelemetryUse where
  outstanding : Nat
  ends : List Nat
  deriving DecidableEq

namespace TelemetryUse

/-- A call, with what it returned. An end is accepted when the caller is told to wait for it. -/
def after (use : TelemetryUse) (now : UInt64) (ret : TraceRet) : TelemetryCall → TelemetryUse
  | .traceOn => { use with outstanding := use.outstanding + 1 }
  | .traceOff => { use with outstanding := use.outstanding - 1 }
  | .postOn time =>
    if ret.stateError = .updateTime then
      { use with ends := use.ends ++ [now.toNat + time.toNat] }
    else use
  | .timeOut => { use with ends := use.ends.filter (now.toNat < ·) }

def Needed (use : TelemetryUse) : Prop := 0 < use.outstanding ∨ use.ends ≠ []

end TelemetryUse

structure TelemetryRun where
  clock : UInt64
  machine : TeleMetryStateMachine
  use : TelemetryUse
  deriving DecidableEq

structure TelemetryLabel where
  now : UInt64
  request : TelemetryCall
  deriving DecidableEq

namespace TelemetryRun

def initial : TelemetryRun := ⟨0, { currentState := some .init }, ⟨0, []⟩⟩

/-- The boot clock does not go back, and `SetTraceStatus` succeeds. -/
def step (state : TelemetryRun) (label : TelemetryLabel) : Option TelemetryRun :=
  if label.now < state.clock then none
  else (state.machine.call label.now .success label.request).map fun (ret, next) =>
    ⟨label.now, next, state.use.after label.now ret label.request⟩

/-- The count fits its type, no `TraceOff` gives the last count back while an end is
pending, and the end of a `PostOn` is a time after the start. -/
def Guard (state : TelemetryRun) (label : TelemetryLabel) : Prop :=
  match label.request with
  | .traceOn => state.use.outstanding + 1 < UInt32.size
  | .traceOff => ¬ (state.use.outstanding = 1 ∧ state.use.ends ≠ [])
  | .postOn time => 0 < label.now.toNat + time.toNat ∧ label.now.toNat + time.toNat < UInt64.size
  | .timeOut => True

instance (state : TelemetryRun) : (label : TelemetryLabel) → Decidable (Guard state label)
  | ⟨_, .traceOn⟩ => inferInstanceAs (Decidable (_ < _))
  | ⟨_, .traceOff⟩ => inferInstanceAs (Decidable (¬ _))
  | ⟨_, .postOn _⟩ => inferInstanceAs (Decidable (_ ∧ _))
  | ⟨_, .timeOut⟩ => .isTrue trivial

/-- The end the machine waits for is the last of the pending ones, or 0 without one. -/
def Deadline (postEndTime : UInt64) (ends : List Nat) : Prop :=
  (postEndTime = 0 ∧ ends = []) ∨
    (0 < postEndTime ∧ postEndTime.toNat ∈ ends ∧ ∀ pending ∈ ends, pending ≤ postEndTime.toNat)

/-- The members of the machine give account of the use. -/
def Settled (machine : TeleMetryStateMachine) (use : TelemetryUse) : Prop :=
  match machine.currentState with
  | none => False
  | some .init => ¬ use.Needed
  | some .traceOn =>
    machine.traceOnCount.toNat = use.outstanding ∧ Deadline machine.postEndTime use.ends ∧ use.Needed

variable {ends : List Nat}

variable (deadline : Deadline postEndTime ends)
include deadline

theorem Deadline.accept (positive : 0 < later) (order : postEndTime ≤ later) :
    Deadline later (ends ++ [later.toNat]) := by
  refine .inr ⟨positive, by simp, forall_mem_append.mpr ⟨?_, forall_mem_singleton.mpr (Nat.le_refl _)⟩⟩
  rcases deadline with ⟨-, rfl⟩ | ⟨-, -, bound⟩
  · exact forall_mem_nil _
  · exact fun pending old => (bound pending old).trans (UInt64.le_iff_toNat_le.mp order)

theorem Deadline.keep (early : now < postEndTime) :
    Deadline postEndTime (ends.filter (now.toNat < ·)) ∧ ends.filter (now.toNat < ·) ≠ [] := by
  have earlier := UInt64.lt_iff_toNat_lt.mp early
  rcases deadline with ⟨zero, -⟩ | ⟨positive, member, bound⟩
  · subst zero
    exact absurd earlier (Nat.not_lt_zero _)
  · have kept : postEndTime.toNat ∈ ends.filter (now.toNat < ·) :=
      mem_filter.mpr ⟨member, decide_eq_true earlier⟩
    exact ⟨.inr ⟨positive, kept, fun pending inside => bound pending (mem_filter.mp inside).1⟩,
      ne_nil_of_mem kept⟩

theorem Deadline.passed (late : ¬ now < postEndTime) :
    ends.filter (now.toNat < ·) = [] := by
  have later := mt UInt64.lt_iff_toNat_lt.mpr late
  rcases deadline with ⟨-, none⟩ | ⟨-, -, bound⟩
  · rw [none]
    rfl
  · refine filter_eq_nil_iff.mpr fun pending member => ?_
    have most := bound pending member
    simp
    omega

omit deadline

theorem toNat_postEnd {now time : UInt64} (fits : now.toNat + time.toNat < UInt64.size) :
    (now + time).toNat = now.toNat + time.toNat := by
  exact Nat.mod_eq_of_lt fits

variable {label : TelemetryLabel}

theorem init_settled {next : TeleMetryStateMachine} (isInit : state.machine.currentState = some .init)
    (idle : ¬ state.use.Needed)
    (guard : Guard state label) (called : state.machine.call label.now .success label.request = some (ret, next)) :
    Settled next (state.use.after label.now ret label.request) := by
  obtain ⟨now, request⟩ := label
  simp only [TelemetryUse.Needed, not_or, not_not, Nat.not_lt, Nat.le_zero] at idle
  obtain ⟨unused, ended⟩ := idle
  simp only [call, isInit, Option.map_some, Option.some.injEq] at called
  cases request with
  | traceOn =>
    cases called
    simp [Settled, TeleMetryStateMachine.tell, TelemetryUse.after, TelemetryUse.Needed, Deadline,
      unused, ended]
  | traceOff | timeOut =>
    cases called
    simp [Settled, isInit, TelemetryUse.after, TelemetryUse.Needed, unused, ended]
  | postOn time =>
    obtain ⟨positive, fits⟩ := guard
    have sum := toNat_postEnd fits
    have later : 0 < now + time := UInt64.lt_iff_toNat_lt.mpr (sum ▸ positive)
    have deadline : Deadline (now + time) ([] ++ [(now + time).toNat]) :=
      Deadline.accept (.inl ⟨rfl, rfl⟩) later (UInt64.le_iff_toNat_le.mpr (Nat.zero_le _))
    cases called
    rw [sum] at deadline
    simpa [Settled, TeleMetryStateMachine.tell, TelemetryUse.after, TelemetryUse.Needed,
      TraceRet.ofState, unused, ended] using deadline

variable {machine : TeleMetryStateMachine} {use : TelemetryUse}

theorem traceOff_settled (isOn : machine.currentState = some .traceOn)
    (counted : machine.traceOnCount.toNat = use.outstanding) (deadline : Deadline machine.postEndTime use.ends)
    (guard : ¬ (use.outstanding = 1 ∧ use.ends ≠ [])) :
    Settled (TraceOnState.traceOff machine .success).2 { use with outstanding := use.outstanding - 1 } := by
  rw [TraceOnState.traceOff]
  split
  · case isTrue running =>
    split
    · case isTrue several =>
      have many : 1 < use.outstanding := counted ▸ UInt32.lt_iff_toNat_lt.mp several
      have less : (machine.traceOnCount - 1).toNat = use.outstanding - 1 := by
        rw [UInt32.toNat_sub_of_le _ _ (UInt32.le_of_lt several), counted]
        rfl
      simp only [Settled, isOn, TelemetryUse.Needed]
      exact ⟨less, deadline, .inl (by omega)⟩
    · case isFalse single =>
      have waiting := running.resolve_right single
      have pending : use.ends ≠ [] := by
        rcases deadline with ⟨zero, -⟩ | ⟨-, member, -⟩
        · rw [zero] at waiting
          cases waiting
        · exact ne_nil_of_mem member
      have unused : use.outstanding = 0 := by
        have few := mt UInt32.lt_iff_toNat_lt.mpr single
        rw [counted] at few
        have other : use.outstanding ≠ 1 := fun one => guard ⟨one, pending⟩
        change ¬ 1 < use.outstanding at few
        omega
      simp only [Settled, isOn, TelemetryUse.Needed, unused]
      exact ⟨counted.trans unused, deadline, .inr pending⟩
  · case isFalse last =>
    obtain ⟨still, few⟩ := not_or.mp last
    have ended : use.ends = [] := by
      rcases deadline with ⟨-, ended⟩ | ⟨positive, -, -⟩
      · exact ended
      · exact absurd positive still
    have one : ¬ 1 < use.outstanding := fun several =>
      few (UInt32.lt_iff_toNat_lt.mpr (counted.symm ▸ several))
    have none : use.outstanding - 1 = 0 := by omega
    simp [transToInitState, TeleMetryStateMachine.tell, Settled,
      TelemetryUse.Needed, ended, none]

theorem timeOut_settled (now : UInt64) (isOn : machine.currentState = some .traceOn)
    (counted : machine.traceOnCount.toNat = use.outstanding) (deadline : Deadline machine.postEndTime use.ends) :
    Settled (TraceOnState.timeOut machine now .success).2
      { use with ends := use.ends.filter (now.toNat < ·) } := by
  rw [TraceOnState.timeOut]
  split
  · case isTrue early =>
    obtain ⟨kept, pending⟩ := deadline.keep early
    simp only [Settled, isOn, TelemetryUse.Needed]
    exact ⟨counted, kept, .inr pending⟩
  · case isFalse late =>
    have ended := deadline.passed late
    simp only
    split
    · case isTrue several =>
      have used : 0 < use.outstanding := counted ▸ UInt32.lt_iff_toNat_lt.mp several
      simp only [Settled, isOn, TelemetryUse.Needed, ended]
      exact ⟨counted, .inl ⟨rfl, rfl⟩, .inl used⟩
    · case isFalse unused =>
      have none : ¬ 0 < use.outstanding := fun used =>
        unused (UInt32.lt_iff_toNat_lt.mpr (counted.symm ▸ used))
      simp [transToInitState, TeleMetryStateMachine.tell, Settled,
        TelemetryUse.Needed, ended, none]

theorem on_settled {ret : TraceRet} {next : TeleMetryStateMachine}
    (isOn : state.machine.currentState = some .traceOn)
    (counted : state.machine.traceOnCount.toNat = state.use.outstanding)
    (deadline : Deadline state.machine.postEndTime state.use.ends) (needed : state.use.Needed)
    (guard : Guard state label) (called : state.machine.call label.now .success label.request = some (ret, next)) :
    Settled next (state.use.after label.now ret label.request) := by
  obtain ⟨now, request⟩ := label
  simp only [call, isOn, Option.map_some, Option.some.injEq] at called
  cases request with
  | traceOn =>
    have more : (state.machine.traceOnCount + 1).toNat = state.use.outstanding + 1 := by
      rw [UInt32.toNat_add, counted]
      exact Nat.mod_eq_of_lt guard
    cases called
    simp only [Settled, isOn, TelemetryUse.after, TelemetryUse.Needed]
    exact ⟨more, deadline, .inl (Nat.succ_pos _)⟩
  | traceOff =>
    obtain rfl : _ = next := congrArg Prod.snd called
    exact traceOff_settled isOn counted deadline guard
  | postOn time =>
    obtain ⟨positive, fits⟩ := guard
    have sum := toNat_postEnd fits
    have later : 0 < now + time := UInt64.lt_iff_toNat_lt.mpr (sum ▸ positive)
    simp only [TraceOnState.postOn] at called
    split at called
    · cases called
      simp only [Settled, isOn, TelemetryUse.after]
      exact ⟨counted, deadline, needed⟩
    · case isFalse accepted =>
      have accept := deadline.accept later (UInt64.not_lt.mp accepted)
      cases called
      rw [sum] at accept
      simp only [Settled, isOn, TelemetryUse.after, TelemetryUse.Needed, TraceRet.ofState, if_true]
      exact ⟨counted, accept, .inr (by simp)⟩
  | timeOut =>
    obtain rfl : _ = next := congrArg Prod.snd called
    exact timeOut_settled now isOn counted deadline

theorem step_settled {state next : TelemetryRun} (settled : Settled state.machine state.use)
    (guard : Guard state label) (stepped : step state label = some next) : Settled next.machine next.use := by
  rw [step] at stepped
  split at stepped
  · cases stepped
  · obtain ⟨⟨ret, machine⟩, called, rfl⟩ := Option.map_eq_some_iff.mp stepped
    rw [Settled] at settled
    split at settled
    · exact settled.elim
    · case h_2 isInit => exact init_settled isInit settled guard called
    · case h_3 isOn =>
      obtain ⟨counted, deadline, needed⟩ := settled
      exact on_settled isOn counted deadline needed guard called

theorem traceOn_iff_needed_of_guarded {labels : List TelemetryLabel} {state : TelemetryRun}
    (guarded : Transition.Guarded step Guard initial labels)
    (ran : Transition.run step initial labels = some state) :
    state.machine.currentState = some .traceOn ↔ state.use.Needed := by
  have start : Settled initial.machine initial.use := by simp [Settled, initial, TelemetryUse.Needed]
  have settled := Transition.run_guarded step_settled start guarded ran
  rw [Settled] at settled
  split at settled
  · exact settled.elim
  · case h_2 isInit => simp [isInit, settled]
  · case h_3 isOn => simp [isOn, settled.2.2]

/-- The `TraceOff` at 2 leaves the count at 1, so the `TimeOut` finds the trace in use. -/
theorem traceOn_unneeded :
    ∃ state, Transition.run step initial
        [⟨1, .traceOn⟩, ⟨1, .postOn 10⟩, ⟨2, .traceOff⟩, ⟨20, .timeOut⟩] = some state ∧
      state.machine.currentState = some .traceOn ∧ ¬ state.use.Needed :=
  ⟨⟨20, ⟨some .traceOn, 1, 0, none⟩, ⟨0, []⟩⟩, rfl, rfl, by simp [TelemetryUse.Needed]⟩

/-- The end passes first, then the count is given back. -/
def endThenOff : List TelemetryLabel :=
  [⟨1, .traceOn⟩, ⟨1, .postOn 10⟩, ⟨5, .timeOut⟩, ⟨12, .timeOut⟩, ⟨13, .traceOff⟩]

theorem traceOn_iff_needed_of_guarded_endThenOff :
    ∃ state, Transition.run step initial endThenOff = some state ∧
      (state.machine.currentState = some .traceOn ↔ state.use.Needed) := by
  have guarded : Transition.Guarded step Guard initial endThenOff := by decide
  exact ⟨_, rfl, traceOn_iff_needed_of_guarded guarded rfl⟩

end TelemetryRun
end Hiview.TraceManager
