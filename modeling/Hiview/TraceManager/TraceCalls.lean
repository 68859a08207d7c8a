import Hiview.TraceManager.TraceStateMachine
import Mathlib.Tactic.Common

/-! What the calls of the trace state machine can do: which names close a trace, what a
successful open enters, and from where a refresh opens. -/
namespace Hiview.TraceManager
open TraceState

/-- The names that `OpenTrace` has a state for. -/
def ScenarioName.hasState (name : ScenarioName) : Bool :=
  match name with
  | .command | .commonBeta | .commonDrop | .telemetry | .appSystem | .appDynamic => true
  | .commandDrop | .close | .other _ => false

/-- The calls that neither drive the library nor change the state's class. -/
def TraceCall.isQuiet : TraceCall → Bool
  | .dumpTraceWithFilter _ | .telemetry _ _ _ | .initTelemetryStatus _ _ | .registerTelemetryCallback
  | .passOn => true
  | .openTrace _ _ | .closeTrace _ _ _ | .traceDropOn _ _ | .traceDropOff _ _ | .dumpTrace _ _ _
  | .dumpTraceAsync _ _ _ | .set _ _ => false

/-- The state from which a refresh opens: the common traces are closed before. -/
def TraceState.refreshStart (state : TraceState) (answer : TraceErrorCode) : TraceState :=
  if (state = .common ∨ state = .commonDrop) ∧ answer = .success then .close else state

/-- The scenario that a refresh opens, unless every switch is off. -/
def commonScenario (switches : UInt8) (isDeveloperMode : Bool) : Scenario :=
  if switches &&& TraceSwitch.dev = TraceSwitch.dev then scenarioCommonDropInfo
  else if isDeveloperMode then scenarioCommonInfo
  else scenarioCommonSchedltInfo

def SwitchSetter.switches (switches : UInt8) : SwitchSetter → UInt8
  | .traceVersionBeta => switches ||| TraceSwitch.beta
  | .traceSwitchUcOn => switches ||| TraceSwitch.ucollection
  | .traceSwitchUcOff => switches &&& ~~~TraceSwitch.ucollection
  | .traceSwitchFreezeOn => switches ||| TraceSwitch.freeze
  | .traceSwitchFreezeOff => switches &&& ~~~TraceSwitch.freeze
  | .traceSwitchDevOn => switches ||| TraceSwitch.dev
  | .traceSwitchDevOff => switches &&& ~~~TraceSwitch.dev

namespace TraceStateMachine
variable (machine : TraceStateMachine)

def scenario : ScenarioName := machine.currentState.getStateScenario

/-- The names with which the running trace is closed. -/
def Names (name : ScenarioName) : Prop :=
  name = machine.scenario ∨
    (machine.currentState = .commandDrop ∧ name = .command) ∨
    (machine.currentState = .common ∧ name = .command ∧ machine.isCommandState = false)

instance (name : ScenarioName) : Decidable (machine.Names name) :=
  inferInstanceAs (Decidable (_ ∨ _ ∨ _))

/-- `CloseTrace` succeeds: nothing is running, or it is named and the library closes it. -/
def Closes (name : ScenarioName) (answer : TraceErrorCode) : Prop :=
  machine.currentState = .close ∨ (machine.Names name ∧ answer = .success)

instance (name : ScenarioName) (answer : TraceErrorCode) : Decidable (machine.Closes name answer) :=
  inferInstanceAs (Decidable (_ ∨ _))

/-- What a close leaves, apart from the switches. -/
inductive CloseOutcome (closes : Prop) (result : TraceRet × TraceStateMachine) : Prop where
  | closed (does : closes) (succeeds : result.1.isSuccess = true)
      (state : result.2.currentState = .close)
      (hitrace : result.2.hitrace = if machine.currentState = .close then machine.hitrace else .closed)
  | refused (not : ¬ closes) (fails : result.1.isSuccess = false)
      (state : result.2.currentState = machine.currentState) (hitrace : result.2.hitrace = machine.hitrace)

variable {machine}

theorem scenario_eq_close : machine.scenario = .close ↔ machine.currentState = .close := by
  rw [scenario]
  cases machine.currentState <;> simp [getStateScenario]

theorem scenario_eq_commandDrop : machine.scenario = .commandDrop ↔ machine.currentState = .commandDrop := by
  rw [scenario]
  cases machine.currentState <;> simp [getStateScenario]

theorem CloseOutcome.iff (outcome : machine.CloseOutcome closes result) (same : closes ↔ other) :
    machine.CloseOutcome other result := by
  cases outcome with
  | closed does succeeds state hitrace => exact .closed (same.mp does) succeeds state hitrace
  | refused not fails state hitrace => exact .refused (mt same.mpr not) fails state hitrace

theorem closeOutcome_library (running : machine.currentState ≠ .close) (answer : TraceErrorCode)
    (exactly : closes ↔ answer = .success) :
    machine.CloseOutcome closes
      (if answer ≠ .success then
        (.ofCode answer, { machine with hitrace := machine.hitrace.closeTrace answer })
      else ({}, transToCloseState { machine with hitrace := machine.hitrace.closeTrace answer })) := by
  by_cases success : answer = .success
  · simp [success]
    exact .closed (exactly.mpr success) rfl rfl (by simp [transToCloseState, Hitrace.closeTrace, running])
  · simp [success]
    exact .refused (mt exactly.mp success) (by simp [success]) rfl (by simp [Hitrace.closeTrace, success])

theorem closeOutcome_deny (not : ¬ closes) :
    machine.CloseOutcome closes (.ofState .deny, machine) :=
  .refused not rfl rfl rfl

theorem baseClose_outcome (name : ScenarioName) (answer : TraceErrorCode) :
    machine.CloseOutcome (machine.currentState = .close ∨ (name = machine.scenario ∧ answer = .success))
      (TraceBaseState.closeTrace machine name answer) := by
  rw [TraceBaseState.closeTrace]
  split
  · case isTrue idle =>
    have state := scenario_eq_close.mp idle
    exact .closed (.inl state) rfl state (by simp [state])
  · case isFalse running =>
    have state := mt scenario_eq_close.mpr running
    split
    · case isTrue other => exact closeOutcome_deny (by simp [state, scenario, other])
    · case isFalse named => exact closeOutcome_library state answer (by simp_all [scenario])

theorem commandClose_outcome (command : machine.currentState = .command) (name : ScenarioName)
    (answer : TraceErrorCode) :
    machine.CloseOutcome (machine.Closes name answer) (CommandState.closeTrace machine name answer) := by
  have names : machine.Names name ↔ name = machine.scenario := by simp [Names, command]
  have outcome := (baseClose_outcome name answer).iff (or_congr_right (and_congr_left' names.symm))
  rw [CommandState.closeTrace]
  cases outcome with
  | closed does succeeds state hitrace =>
    simp [succeeds]
    exact .closed does succeeds state hitrace
  | refused not fails state hitrace =>
    simp [fails]
    exact .refused not fails state hitrace

theorem commandDropClose_outcome (drop : machine.currentState = .commandDrop) (name : ScenarioName)
    (answer : TraceErrorCode) :
    machine.CloseOutcome (machine.Closes name answer) (CommandDropState.closeTrace machine name answer) := by
  have closes : machine.Closes name answer ↔
      (name = .commandDrop ∨ name = .command) ∧ answer = .success := by
    simp [Closes, Names, drop, scenario, TraceState.getStateScenario]
  rw [CommandDropState.closeTrace]
  split
  · case isTrue other => exact closeOutcome_deny (by simp [closes, other])
  · case isFalse named =>
    have either : name = .commandDrop ∨ name = .command := by
      rwa [not_and_or, not_not, not_not] at named
    exact closeOutcome_library (by simp [drop]) answer (by simp [closes, either])

theorem commonClose_outcome (common : machine.currentState = .common) (name : ScenarioName)
    (answer : TraceErrorCode) :
    machine.CloseOutcome (machine.Closes name answer) (CommonState.closeTrace machine name answer) := by
  have closes : machine.Closes name answer ↔
      (name = .commonBeta ∨ (name = .command ∧ machine.isCommandState = false)) ∧ answer = .success := by
    simp [Closes, Names, common, scenario, TraceState.getStateScenario]
  rw [CommonState.closeTrace]
  split
  · case isTrue own =>
    refine (baseClose_outcome name answer).iff ?_
    rw [closes]
    simp [own, common, scenario, TraceState.getStateScenario]
  · case isFalse notOwn =>
    split
    · case isTrue command =>
      have same : machine.closeVersionBeta.currentState = .close ∨
          (.commonBeta = machine.closeVersionBeta.scenario ∧ answer = .success) ↔ machine.Closes name answer := by
        rw [closes]
        simp [command, common, closeVersionBeta, scenario, TraceState.getStateScenario]
      cases (baseClose_outcome .commonBeta answer).iff same with
      | closed does succeeds state hitrace => exact .closed does succeeds state hitrace
      | refused not fails state hitrace => exact .refused not fails state hitrace
    · case isFalse other => exact closeOutcome_deny (by simp [closes, notOwn, other])

section
variable (machine : TraceStateMachine) (name : ScenarioName) (answer : TraceErrorCode)

theorem closeTrace_outcome :
    machine.CloseOutcome (machine.Closes name answer) (TraceState.closeTrace machine name answer) := by
  have base : (machine.Names name ↔ name = machine.scenario) →
      machine.CloseOutcome (machine.Closes name answer) (TraceBaseState.closeTrace machine name answer) :=
    fun names => (baseClose_outcome name answer).iff (or_congr_right (and_congr_left' names.symm))
  rw [TraceState.closeTrace]
  split
  · case h_1 command => exact commandClose_outcome command name answer
  · case h_2 drop => exact commandDropClose_outcome drop name answer
  · case h_3 common => exact commonClose_outcome common name answer
  all_goals
    case _ state => exact base (by simp [Names, state])

theorem baseClose_keeps :
    (TraceBaseState.closeTrace machine name answer).2.traceSwitchState = machine.traceSwitchState ∧
      (TraceBaseState.closeTrace machine name answer).2.isCommandState = machine.isCommandState := by
  rw [TraceBaseState.closeTrace]
  split
  · exact ⟨rfl, rfl⟩
  · split
    · exact ⟨rfl, rfl⟩
    · split <;> exact ⟨rfl, rfl⟩

theorem commandDropClose_keeps :
    (CommandDropState.closeTrace machine name answer).2.traceSwitchState = machine.traceSwitchState ∧
      (CommandDropState.closeTrace machine name answer).2.isCommandState = machine.isCommandState := by
  rw [CommandDropState.closeTrace]
  split
  · exact ⟨rfl, rfl⟩
  · split <;> exact ⟨rfl, rfl⟩

theorem closeTrace_switches :
    (TraceState.closeTrace machine name answer).2.traceSwitchState = machine.traceSwitchState ∨
      (machine.currentState = .common ∧ name = .command ∧
        (TraceState.closeTrace machine name answer).2.traceSwitchState =
          machine.traceSwitchState &&& ~~~TraceSwitch.beta) := by
  rw [TraceState.closeTrace]
  split
  · left
    rw [CommandState.closeTrace]
    simp only
    split <;> exact (baseClose_keeps machine name answer).1
  · exact .inl (commandDropClose_keeps machine name answer).1
  · case h_3 common =>
    rw [CommonState.closeTrace]
    split
    · exact .inl (baseClose_keeps machine name answer).1
    · split
      · case isTrue command =>
        exact .inr ⟨common, command.1, (baseClose_keeps machine.closeVersionBeta .commonBeta answer).1⟩
      · exact .inl rfl
  all_goals exact .inl (baseClose_keeps machine name answer).1

/-- Recording is started from the command state for its own scenario, or nothing changes. -/
theorem traceDropOn_cases : (machine.traceDropOn name answer).2 = machine ∨
    machine.currentState = .command ∧ name = .command ∧ (machine.traceDropOn name answer).2 =
      { machine with hitrace := machine.hitrace.recordTraceOn .success, currentState := .commandDrop } := by
  rw [traceDropOn]
  split
  · case h_1 command =>
    rw [CommandState.traceDropOn]
    by_cases named : name = .command
    · by_cases success : answer = .success
      · simp [named, success, command, transToCommandDropState]
      · cases hitrace : machine.hitrace <;> simp [named, success, Hitrace.recordTraceOn, ← hitrace]
    · simp [named]
  · exact .inl rfl

theorem traceDropOff_cases : (machine.traceDropOff name answer).2 = machine ∨
    machine.currentState = .commandDrop ∧ name = .commandDrop ∧ (machine.traceDropOff name answer).2 =
      { machine with hitrace := machine.hitrace.recordTraceOff .success }.transToCommandState := by
  rw [traceDropOff]
  split
  · case h_1 drop =>
    rw [CommandDropState.traceDropOff]
    by_cases named : name = .commandDrop
    · by_cases success : answer = .success
      · simp [named, success, drop]
      · cases hitrace : machine.hitrace <;> simp [named, success, Hitrace.recordTraceOff, ← hitrace]
    · simp [named]
  · exact .inl rfl

end

theorem isCommon_iff : machine.scenario = .commonBeta ∨ machine.scenario = .commonDrop ↔
    machine.currentState = .common ∨ machine.currentState = .commonDrop := by
  rw [scenario]
  cases machine.currentState <;> simp [getStateScenario]

/-- The close of a refresh names the running trace. -/
theorem closeCommon_spec (machine : TraceStateMachine) (answer : TraceErrorCode) :
    (machine.closeCommon answer).currentState = machine.currentState.refreshStart answer ∧
      (machine.closeCommon answer).hitrace =
        (if machine.currentState.refreshStart answer = machine.currentState then machine.hitrace else .closed) ∧
      (machine.closeCommon answer).traceSwitchState = machine.traceSwitchState := by
  by_cases common : machine.currentState = .common ∨ machine.currentState = .commonDrop
  · have same : machine.closeCommon answer = (TraceState.closeTrace machine machine.scenario answer).2 :=
      if_pos (isCommon_iff.mpr common)
    have running : machine.currentState ≠ .close := by
      rcases common with state | state <;> simp [state]
    have closes : machine.Closes machine.scenario answer ↔ answer = .success := by
      simp [Closes, Names, running]
    have switches := (closeTrace_switches machine machine.scenario answer).resolve_right fun other => by
      simp [scenario, other.1, TraceState.getStateScenario] at other
    rw [same]
    cases closeTrace_outcome machine machine.scenario answer with
    | closed does succeeds state hitrace =>
      have start : machine.currentState.refreshStart answer = .close := if_pos ⟨common, closes.mp does⟩
      rw [start, if_neg running.symm]
      exact ⟨state, hitrace.trans (if_neg running), switches⟩
    | refused not fails state hitrace =>
      have start : machine.currentState.refreshStart answer = machine.currentState :=
        if_neg fun both => not (closes.mpr both.2)
      rw [start, if_pos rfl]
      exact ⟨state, hitrace, switches⟩
  · have same : machine.closeCommon answer = machine := if_neg (mt isCommon_iff.mp common)
    have start : machine.currentState.refreshStart answer = machine.currentState :=
      if_neg fun both => common both.1
    rw [same, start, if_pos rfl]
    exact ⟨rfl, rfl, rfl⟩

theorem refreshState_eq (machine : TraceStateMachine) (answers : RefreshAnswers) :
    machine.refreshState answers =
      if machine.traceSwitchState = 0 then ({}, machine.closeCommon answers.closeTrace)
      else TraceBaseState.openTrace (machine.closeCommon answers.closeTrace)
        (commonScenario machine.traceSwitchState answers.isDeveloperMode) answers.reopen := by
  obtain ⟨-, -, switches⟩ := closeCommon_spec machine answers.closeTrace
  simp [refreshState, switches, commonScenario]
  split_ifs <;> rfl

theorem set_eq (machine : TraceStateMachine) (refresh : RefreshAnswers) (setter : SwitchSetter) :
    machine.set refresh setter =
      (refreshState { machine with traceSwitchState := setter.switches machine.traceSwitchState } refresh).2 := by
  cases setter <;> rfl

theorem step_forall {P : TraceStateMachine → Prop} (called : machine.call label = some result) :
    (∀ next, machine.step label = some next → P next) ↔ P result.2 := by
  simp [step, called]

theorem call_quiet_cases (quiet : label.isQuiet = true) (called : machine.call label = some result) :
    result.2 = machine ∨ ∃ before after, machine.currentState = .telemetry before ∧
      result.2 = { machine with currentState := .telemetry after } := by
  cases label with
  | openTrace | closeTrace | traceDropOn | traceDropOff | dumpTrace | dumpTraceAsync | set => cases quiet
  | passOn =>
    cases called
    exact .inl rfl
  | dumpTraceWithFilter answer =>
    rw [call] at called
    split at called
    · obtain ⟨ret, -, rfl⟩ := Option.map_eq_some_iff.mp called
      exact .inl rfl
    · cases called
      exact .inl rfl
  | telemetry request now status =>
    rw [call] at called
    split at called
    · case h_1 state isTelemetry =>
      obtain ⟨answer, -, rfl⟩ := Option.map_eq_some_iff.mp called
      exact .inr ⟨_, _, isTelemetry, rfl⟩
    · cases called
      exact .inl rfl
  | initTelemetryStatus | registerTelemetryCallback =>
    rw [call] at called
    split at called
    · case h_1 state isTelemetry =>
      cases called
      exact .inr ⟨_, _, isTelemetry, rfl⟩
    · cases called
      exact .inl rfl

theorem call_quiet (quiet : label.isQuiet = true) (called : machine.call label = some result) :
    result.2.scenario = machine.scenario ∧ result.2.hitrace = machine.hitrace := by
  rcases call_quiet_cases quiet called with same | ⟨before, after, isTelemetry, same⟩ <;> rw [same]
  · exact ⟨rfl, rfl⟩
  · exact ⟨by simp [scenario, isTelemetry, getStateScenario], rfl⟩

end TraceStateMachine
end Hiview.TraceManager
