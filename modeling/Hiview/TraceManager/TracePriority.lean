import Hiview.TraceManager.TraceCalls

/-! What makes the machine change its scenario: a scenario of a higher level, the owner of
the trace, or a refresh of the common traces by the switches. -/
namespace Hiview.TraceManager
open TraceBaseState (enter)
open TraceState (getStateLevel getStateScenario refreshStart)
open ScenarioLevel (appDynamic appSystem close command commonBeta commonDrop telemetry)

def ScenarioName.IsCommon (name : ScenarioName) : Prop := name = .commonBeta ∨ name = .commonDrop

/-- The library does not fail in a refresh. -/
structure RefreshAnswers.Succeeds (answers : RefreshAnswers) : Prop where
  closeTrace : answers.closeTrace = .success
  reopen : answers.reopen = {}

namespace TraceStateMachine

def level (machine : TraceStateMachine) : Nat := machine.currentState.getStateLevel

/-- A refresh leaves a common trace, or enters one of a higher level. -/
def Refreshed (machine next : TraceStateMachine) : Prop :=
  (machine.scenario.IsCommon ∧ (next.scenario = .close ∨ next.scenario.IsCommon)) ∨
    (next.scenario.IsCommon ∧ machine.level < next.level)

/-- Why a call may change the scenario. -/
def Cause (machine : TraceStateMachine) (result : TraceRet × TraceStateMachine) : TraceCall → Prop
  | .openTrace scenario _ => machine.level < scenario.level ∧ result.1.isSuccess = true
  | .closeTrace name _ _ => machine.Names name ∨ machine.Refreshed result.2
  | .traceDropOn name _ => machine.scenario = .command ∧ name = .command
  | .traceDropOff name _ => machine.scenario = .commandDrop ∧ name = .commandDrop
  | .dumpTrace _ _ _ | .dumpTraceAsync _ _ _ | .set _ _ => machine.Refreshed result.2
  | .dumpTraceWithFilter _ | .telemetry _ _ _ | .initTelemetryStatus _ _ | .registerTelemetryCallback
  | .passOn => False

/-- What the switches say about the scenario after a setter. -/
structure Switched (machine next : TraceStateMachine) : Prop where
  commonDrop : machine.level < ScenarioLevel.command →
    next.traceSwitchState &&& TraceSwitch.dev = TraceSwitch.dev → next.scenario = .commonDrop
  commonBeta : machine.level < ScenarioLevel.command → next.traceSwitchState ≠ 0 →
    next.traceSwitchState &&& TraceSwitch.dev ≠ TraceSwitch.dev → next.scenario = .commonBeta
  off : next.traceSwitchState = 0 → ¬ next.scenario.IsCommon

variable {machine : TraceStateMachine}

theorem enter_scenario (machine : TraceStateMachine) (answer : TraceErrorCode) (scenario : Scenario) :
    (enter machine answer scenario).2.scenario = machine.scenario ∨
      ((enter machine answer scenario).1.isSuccess = true ∧
        (enter machine answer scenario).2.scenario = scenario.name) := by
  rw [enter]
  cases name : scenario.name with
  | commonDrop =>
    simp only
    split
    · exact .inl rfl
    · exact .inr ⟨rfl, rfl⟩
  | command | commonBeta | telemetry | appSystem | appDynamic => exact .inr ⟨rfl, rfl⟩
  | commandDrop | close | other => exact .inl rfl

theorem openTrace_scenario (machine : TraceStateMachine) (scenario : Scenario) (answers : OpenAnswers) :
    (TraceBaseState.openTrace machine scenario answers).2.scenario = machine.scenario ∨
      (machine.level < scenario.level ∧
        (TraceBaseState.openTrace machine scenario answers).1.isSuccess = true ∧
        (TraceBaseState.openTrace machine scenario answers).2.scenario = scenario.name) := by
  fun_cases TraceBaseState.openTrace machine scenario answers with
  | case4 higher =>
    exact (enter_scenario _ answers.recordTraceOn scenario).imp id fun entered => ⟨Nat.lt_of_not_le higher, entered⟩
  | _ => exact .inl rfl

theorem commonScenario_isCommon (switches : UInt8) (isDeveloperMode : Bool) :
    (commonScenario switches isDeveloperMode).name.IsCommon := by
  rw [commonScenario]
  split
  · exact .inr rfl
  · split <;> exact .inl rfl

theorem level_of_commonScenario (named : machine.scenario = (commonScenario switches isDeveloperMode).name) :
    machine.level = (commonScenario switches isDeveloperMode).level := by
  have beta : machine.scenario = .commonBeta → machine.level = commonBeta := by
    rw [scenario, level]
    cases machine.currentState <;> simp [getStateScenario, getStateLevel]
  have drop : machine.scenario = .commonDrop → machine.level = commonDrop := by
    rw [scenario, level]
    cases machine.currentState <;> simp [getStateScenario, getStateLevel]
  rw [commonScenario] at named ⊢
  split at named
  · case isTrue dev =>
    rw [if_pos dev]
    exact drop named
  · case isFalse notDev =>
    rw [if_neg notDev]
    cases isDeveloperMode <;> exact beta named

theorem closeCommon_scenario (machine : TraceStateMachine) (answer : TraceErrorCode) :
    (machine.closeCommon answer).currentState = machine.currentState ∨
      (machine.scenario.IsCommon ∧ (machine.closeCommon answer).currentState = .close) := by
  obtain ⟨state, -, -⟩ := closeCommon_spec machine answer
  rw [state, refreshStart]
  split
  · case isTrue both => exact .inr ⟨isCommon_iff.mpr both.1, rfl⟩
  · exact .inl rfl

section
variable (machine : TraceStateMachine) (name : ScenarioName) (answer : TraceErrorCode)

theorem refreshState_refreshed (answers : RefreshAnswers)
    (changed : (machine.refreshState answers).2.scenario ≠ machine.scenario) :
    machine.Refreshed (machine.refreshState answers).2 := by
  have start := closeCommon_scenario machine answers.closeTrace
  have unopened : (machine.refreshState answers).2.scenario = (machine.closeCommon answers.closeTrace).scenario →
      machine.Refreshed (machine.refreshState answers).2 := by
    intro same
    rcases start with state | ⟨common, closed⟩
    · exact absurd (same.trans (congrArg getStateScenario state)) changed
    · exact .inl ⟨common, .inl (same.trans (scenario_eq_close.mpr closed))⟩
  by_cases off : machine.traceSwitchState = 0
  · apply unopened
    rw [refreshState_eq, if_pos off]
  · have opened := openTrace_scenario (machine.closeCommon answers.closeTrace)
      (commonScenario machine.traceSwitchState answers.isDeveloperMode) answers.reopen
    have same := refreshState_eq machine answers
    rw [if_neg off] at same
    rw [← same] at opened
    rcases opened with unchanged | ⟨higher, -, named⟩
    · exact unopened unchanged
    · have common : (machine.refreshState answers).2.scenario.IsCommon := named ▸ commonScenario_isCommon _ _
      rcases start with state | ⟨wasCommon, -⟩
      · refine .inr ⟨common, ?_⟩
        rw [level_of_commonScenario named]
        rw [level, state] at higher
        exact higher
      · exact .inl ⟨wasCommon, .inr common⟩

theorem dumped_refreshed (ret : TraceRet) (refresh : RefreshAnswers)
    (changed : (machine.dumped ret refresh).2.scenario ≠ machine.scenario) :
    machine.Refreshed (machine.dumped ret refresh).2 := by
  rw [dumped] at changed ⊢
  split at changed
  · case isTrue refreshes =>
    rw [if_pos refreshes]
    exact refreshState_refreshed machine refresh changed
  · exact absurd rfl changed

theorem machineClose_cause (refresh : RefreshAnswers)
    (changed : (machine.closeTrace name answer refresh).2.scenario ≠ machine.scenario) :
    machine.Names name ∨ machine.Refreshed (machine.closeTrace name answer refresh).2 := by
  rw [closeTrace] at changed ⊢
  cases closeTrace_outcome machine name answer with
  | closed does succeeds state hitrace =>
    rcases does with idle | ⟨names, -⟩
    · right
      have same : (TraceState.closeTrace machine name answer).2.currentState = machine.currentState :=
        state.trans idle.symm
      simp only [succeeds, if_true] at changed ⊢
      have refreshed := refreshState_refreshed _ refresh
        (changed.trans_eq (congrArg getStateScenario same).symm)
      rwa [Refreshed, scenario, level, same] at refreshed
    · exact .inl names
  | refused not fails state hitrace =>
    simp only [fails, Bool.false_eq_true, if_false] at changed
    exact absurd (congrArg getStateScenario state) changed

theorem traceDropOn_cause (changed : (machine.traceDropOn name answer).2.scenario ≠ machine.scenario) :
    machine.scenario = .command ∧ name = .command := by
  rcases traceDropOn_cases machine name answer with same | ⟨command, named, -⟩
  · exact absurd (congrArg scenario same) changed
  · exact ⟨congrArg getStateScenario command, named⟩

theorem traceDropOff_cause (changed : (machine.traceDropOff name answer).2.scenario ≠ machine.scenario) :
    machine.scenario = .commandDrop ∧ name = .commandDrop := by
  rcases traceDropOff_cases machine name answer with same | ⟨drop, named, -⟩
  · exact absurd (congrArg scenario same) changed
  · exact ⟨congrArg getStateScenario drop, named⟩

end

theorem call_cause (called : machine.call label = some result) (changed : result.2.scenario ≠ machine.scenario) :
    machine.Cause result label := by
  cases label with
  | openTrace scenario answers =>
    cases called
    obtain ⟨higher, success, -⟩ := (openTrace_scenario machine scenario answers).resolve_left changed
    exact ⟨higher, success⟩
  | closeTrace name answer refresh =>
    cases called
    exact machineClose_cause machine name answer refresh changed
  | traceDropOn name answer =>
    cases called
    exact traceDropOn_cause machine name answer changed
  | traceDropOff name answer =>
    cases called
    exact traceDropOff_cause machine name answer changed
  | dumpTrace name answer refresh | dumpTraceAsync name answer refresh =>
    cases called
    exact dumped_refreshed machine _ refresh changed
  | set setter refresh =>
    cases called
    simp only [set_eq] at changed ⊢
    exact refreshState_refreshed _ refresh changed
  | dumpTraceWithFilter | telemetry | initTelemetryStatus | registerTelemetryCallback | passOn =>
    exact absurd (call_quiet rfl called).1 changed

theorem openTrace_switches (machine : TraceStateMachine) (scenario : Scenario) (answers : OpenAnswers) :
    (TraceBaseState.openTrace machine scenario answers).2.traceSwitchState = machine.traceSwitchState := by
  fun_cases TraceBaseState.openTrace machine scenario answers with
  | case4 =>
    rw [enter]
    split
    · rfl
    · rfl
    · split <;> rfl
    all_goals rfl
  | _ => rfl

theorem refreshState_switches (machine : TraceStateMachine) (answers : RefreshAnswers) :
    (machine.refreshState answers).2.traceSwitchState = machine.traceSwitchState := by
  obtain ⟨-, -, switches⟩ := closeCommon_spec machine answers.closeTrace
  rw [refreshState_eq]
  split
  · exact switches
  · exact (openTrace_switches _ _ _).trans switches

theorem openTrace_common (machine : TraceStateMachine) {scenario : Scenario} (common : scenario.name.IsCommon)
    (higher : machine.level < scenario.level) :
    (TraceBaseState.openTrace machine scenario {}).2.scenario = scenario.name := by
  have accepted : ¬ scenario.level ≤ machine.currentState.getStateLevel := Nat.not_le.mpr higher
  rcases common with name | name <;>
    simp [TraceBaseState.openTrace, enter, accepted, name, transToCommonState,
      transToCommonDropState, TraceStateMachine.scenario, getStateScenario]

theorem refreshStart_level (state : TraceState) (low : state.getStateLevel < command) :
    (state.refreshStart .success).getStateLevel < commonBeta := by
  cases state with
  | command | commandDrop => exact absurd low (Nat.lt_irrefl _)
  | close | common | commonDrop | telemetry | appSystem | dynamic =>
    simp [refreshStart, getStateLevel, close, commonBeta, telemetry, appSystem, appDynamic]

theorem commonScenario_level (switches : UInt8) (isDeveloperMode : Bool) :
    commonBeta ≤ (commonScenario switches isDeveloperMode).level := by
  rw [commonScenario]
  split
  · decide
  · split <;> exact Nat.le_refl _

variable {answers : RefreshAnswers}

section
variable (machine : TraceStateMachine)

theorem refreshState_switched (low : machine.level < command) (switched : machine.traceSwitchState ≠ 0)
    (succeeds : answers.Succeeds) :
    (machine.refreshState answers).2.scenario =
      (commonScenario machine.traceSwitchState answers.isDeveloperMode).name := by
  obtain ⟨state, -, -⟩ := closeCommon_spec machine answers.closeTrace
  rw [refreshState_eq, if_neg switched, succeeds.reopen]
  apply openTrace_common _ (commonScenario_isCommon _ _)
  rw [level, state, succeeds.closeTrace]
  exact Nat.lt_of_lt_of_le (refreshStart_level machine.currentState low) (commonScenario_level _ _)

theorem refreshState_off (off : machine.traceSwitchState = 0) (succeeds : answers.Succeeds) :
    ¬ (machine.refreshState answers).2.scenario.IsCommon := by
  obtain ⟨state, -, -⟩ := closeCommon_spec machine answers.closeTrace
  rw [refreshState_eq, if_pos off, scenario, state, succeeds.closeTrace]
  cases machine.currentState <;>
    simp [refreshStart, getStateScenario, ScenarioName.IsCommon]

theorem refreshState_law (succeeds : answers.Succeeds) :
    machine.Switched (machine.refreshState answers).2 := by
  constructor
  · intro low dev
    rw [refreshState_switches] at dev
    have switched : machine.traceSwitchState ≠ 0 := by
      intro zero
      rw [zero] at dev
      cases dev
    rw [refreshState_switched machine low switched succeeds, commonScenario, if_pos dev]
    rfl
  · intro low switched notDev
    rw [refreshState_switches] at switched notDev
    rw [refreshState_switched machine low switched succeeds, commonScenario, if_neg notDev]
    split <;> rfl
  · intro off
    rw [refreshState_switches] at off
    exact refreshState_off machine off succeeds

theorem set_switched (setter : SwitchSetter) (succeeds : refresh.Succeeds) :
    machine.Switched (machine.set refresh setter) := by
  obtain ⟨commonDrop, commonBeta, off⟩ := refreshState_law
    { machine with traceSwitchState := setter.switches machine.traceSwitchState } succeeds
  rw [set_eq]
  exact ⟨commonDrop, commonBeta, off⟩

end

theorem scenario_changes_by_priority {label : TraceCall} {result : TraceRet × TraceStateMachine}
    (called : machine.call label = some result) :
    (result.2.scenario ≠ machine.scenario → machine.Cause result label) ∧
      ∀ setter refresh, label = .set setter refresh → refresh.Succeeds → machine.Switched result.2 := by
  refine ⟨call_cause called, ?_⟩
  rintro setter refresh rfl succeeds
  cases called
  exact set_switched machine setter succeeds

/-- Switching the recording on ends a telemetry trace. -/
theorem scenario_changes_by_priority_devOn :
    ∃ result, call { currentState := .telemetry { policy := .manual }, hitrace := .opened { name := .telemetry } }
        (.set .traceSwitchDevOn {}) = some result ∧ result.2.scenario = .commonDrop := by
  refine ⟨_, rfl, ?_⟩
  exact ((scenario_changes_by_priority rfl).2 .traceSwitchDevOn {} rfl ⟨rfl, rfl⟩).commonDrop (by decide) rfl

end TraceStateMachine
end Hiview.TraceManager
