import Hiview.Lib.Transition
import Hiview.TraceManager.TraceCalls

/-! Whether the machine agrees with the library it drives. A change of the scenario is a
sequence of library calls with returns between them: the machine falls behind when the
library has closed or opened a trace and a later call of the sequence fails, or when no
state belongs to the opened scenario. -/
namespace Hiview.TraceManager
open Hitrace (recordTraceOff recordTraceOn)
open TraceBaseState (enter)
open TraceState (getStateScenario refreshStart)
open TraceSwitch (dev)

def ScenarioName.IsDrop (name : ScenarioName) : Prop := name = .commandDrop ∨ name = .commonDrop

namespace TraceStateMachine

structure Agrees (machine : TraceStateMachine) : Prop where
  closed : machine.scenario = .close ↔ machine.hitrace = .closed
  drop : machine.scenario.IsDrop ↔ ∃ scenario, machine.hitrace = .recording scenario
  opened : ∀ scenario, machine.hitrace = .opened scenario → machine.scenario = scenario.name

/-- The answers with which an `OpenTrace` in a state leaves machine and library in step:
denied or not begun, or opened (and recorded) with a state of its own; an open that fails
only from the closed state. -/
def OpenSettles (state : TraceState) (scenario : Scenario) (answers : OpenAnswers) : Prop :=
  state.getStateLevel < scenario.level → answers.closeTrace = .success →
    if answers.openTrace = .success then
      scenario.name.hasState = true ∧ (scenario.name = .commonDrop → answers.recordTraceOn = .success)
    else state = .close

/-- The same for a refresh in a state with the given switches. -/
def RefreshSettles (state : TraceState) (switches : UInt8) (answers : RefreshAnswers) : Prop :=
  switches ≠ 0 →
    OpenSettles (state.refreshStart answers.closeTrace) (commonScenario switches answers.isDeveloperMode)
      answers.reopen

/-- A dump that the library answers with a code that calls for a refresh. -/
def Refreshes (ret : TraceRet) : Prop := ret.codeError = .traceIsOccupied ∨ ret.codeError = .wrongTraceMode

/-- The answers with which a call leaves machine and library in step. -/
def Guard (machine : TraceStateMachine) : TraceCall → Prop
  | .openTrace scenario answers => OpenSettles machine.currentState scenario answers
  | .closeTrace name answer refresh =>
    machine.Closes name answer → RefreshSettles .close machine.traceSwitchState refresh
  | .dumpTrace name answer refresh =>
    Refreshes (machine.currentState.dumpTrace name answer) →
      RefreshSettles machine.currentState machine.traceSwitchState refresh
  | .dumpTraceAsync name answer refresh =>
    Refreshes (machine.currentState.dumpTraceAsync name answer) →
      RefreshSettles machine.currentState machine.traceSwitchState refresh
  | .set setter refresh =>
    RefreshSettles machine.currentState (setter.switches machine.traceSwitchState) refresh
  | .traceDropOn _ _ | .traceDropOff _ _ | .dumpTraceWithFilter _ | .telemetry _ _ _
  | .initTelemetryStatus _ _ | .registerTelemetryCallback | .passOn => True

/-- The command trace is the one that `TraceDropOff` goes back to. -/
structure Follows (machine : TraceStateMachine) : Prop where
  agrees : machine.Agrees
  command : ∀ scenario, machine.currentState = .commandDrop → machine.hitrace = .recording scenario →
    scenario.name = .command

/-- A recording command trace was one before. -/
def Kept (machine next : TraceStateMachine) : Prop :=
  ∀ scenario, next.currentState = .commandDrop → next.hitrace = .recording scenario →
    machine.currentState = .commandDrop ∧ machine.hitrace = .recording scenario

section
variable {machine : TraceStateMachine}

theorem agrees_closed (closed : machine.hitrace = .closed) :
    machine.Agrees ↔ machine.currentState = .close := by
  constructor
  · intro agrees
    have name := agrees.closed.mpr closed
    cases state : machine.currentState <;> simp_all [scenario, getStateScenario]
  · intro state
    constructor <;> simp [scenario, state, closed, getStateScenario, ScenarioName.IsDrop]

theorem agrees_opened (isOpen : machine.hitrace = .opened opened) :
    machine.Agrees ↔ machine.scenario = opened.name ∧ opened.name.hasState = true ∧
      opened.name ≠ .commonDrop := by
  constructor
  · intro agrees
    have name := agrees.opened opened isOpen
    have notClosed : machine.scenario ≠ .close := fun close => by
      rw [agrees.closed.mp close] at isOpen
      cases isOpen
    have notDrop : ¬ machine.scenario.IsDrop := fun drop => by
      obtain ⟨_, recording⟩ := agrees.drop.mp drop
      rw [recording] at isOpen
      cases isOpen
    rw [← name]
    revert notClosed notDrop
    rw [scenario]
    cases machine.currentState <;>
      simp [getStateScenario, ScenarioName.hasState, ScenarioName.IsDrop]
  · rintro ⟨name, hasState, notDrop⟩
    constructor
    · simp [isOpen, name, iff_false]
      intro close
      simp [close, ScenarioName.hasState] at hasState
    · simp [isOpen, name, ScenarioName.IsDrop, exists_false, iff_false]
      refine ⟨fun drop => ?_, notDrop⟩
      simp [drop, ScenarioName.hasState] at hasState
    · intro other same
      rw [isOpen] at same
      cases same
      exact name

theorem agrees_recording (isRecording : machine.hitrace = .recording opened) :
    machine.Agrees ↔ machine.scenario.IsDrop := by
  constructor
  · intro agrees
    exact agrees.drop.mpr ⟨opened, isRecording⟩
  · intro drop
    constructor
    · simp [isRecording, iff_false]
      intro close
      simp [close, ScenarioName.IsDrop] at drop
    · simp [isRecording, drop]
    · simp [isRecording]

theorem enter_agrees_iff {scenario : Scenario} (answer : TraceErrorCode)
    (isOpen : machine.hitrace = .opened scenario) :
    (enter machine answer scenario).2.Agrees ↔
      scenario.name.hasState = true ∧ (scenario.name = .commonDrop → answer = .success) := by
  rw [enter]
  cases name : scenario.name with
  | commonDrop =>
    by_cases recorded : answer = .success
    · have recording : machine.hitrace.recordTraceOn .success = .recording scenario := by
        simp [isOpen, recordTraceOn]
      simp [recorded, ScenarioName.hasState, iff_true]
      exact (agrees_recording recording).mpr (.inr rfl)
    · have still : machine.hitrace.recordTraceOn answer = .opened scenario := by
        simp [isOpen, recordTraceOn, recorded]
      simp [recorded, imp_false, iff_false]
      rw [agrees_opened still]
      exact fun agrees => agrees.2.2 name
  | commandDrop | close | other _ =>
    rw [agrees_opened isOpen]
    simp [name, ScenarioName.hasState]
  | command | commonBeta | telemetry | appSystem | appDynamic =>
    rw [agrees_opened (by exact isOpen)]
    simp [name, ScenarioName.hasState, TraceStateMachine.scenario, getStateScenario,
      transToCommandState, transToCommonState, transToTelemetryState, transToAppSystemState,
      transToDynamicState]

variable (agrees : machine.Agrees)
include agrees

theorem openTrace_agrees_iff (scenario : Scenario) (answers : OpenAnswers) :
    (TraceBaseState.openTrace machine scenario answers).2.Agrees ↔
      OpenSettles machine.currentState scenario answers := by
  rw [TraceBaseState.openTrace, OpenSettles]
  split
  · case isTrue denied => simp [Nat.not_lt.mpr denied, agrees]
  · case isFalse higher =>
    simp [Nat.lt_of_not_le higher]
    by_cases closed : answers.closeTrace = .success
    · by_cases opened : answers.openTrace = .success
      · simp [closed, opened]
        exact enter_agrees_iff _ rfl
      · simp [closed, opened]
        exact agrees_closed (by simp [Hitrace.openTrace, Hitrace.closeTrace, opened])
    · simpa [closed, Hitrace.closeTrace] using agrees

variable {next : TraceStateMachine}

theorem Agrees.of_same (state : next.scenario = machine.scenario)
    (hitrace : next.hitrace = machine.hitrace) : next.Agrees := by
  obtain ⟨closed, drop, opened⟩ := agrees
  constructor
  · rw [state, hitrace]
    exact closed
  · rw [state, hitrace]
    exact drop
  · rw [state, hitrace]
    exact opened

theorem closeTrace_agrees (name : ScenarioName) (answer : TraceErrorCode) :
    (TraceState.closeTrace machine name answer).2.Agrees := by
  cases closeTrace_outcome machine name answer with
  | closed does succeeds state hitrace =>
    refine (agrees_closed ?_).mpr state
    rw [hitrace]
    split
    · case isTrue idle => exact agrees.closed.mp (scenario_eq_close.mpr idle)
    · rfl
  | refused not fails state hitrace => exact agrees.of_same (by rw [scenario, state, scenario]) hitrace

theorem refreshState_agrees_iff (answers : RefreshAnswers) :
    (machine.refreshState answers).2.Agrees ↔
      RefreshSettles machine.currentState machine.traceSwitchState answers := by
  obtain ⟨state, hitrace, -⟩ := closeCommon_spec machine answers.closeTrace
  have start : (machine.closeCommon answers.closeTrace).Agrees := by
    by_cases common : machine.scenario = .commonBeta ∨ machine.scenario = .commonDrop
    · rw [show machine.closeCommon answers.closeTrace = _ from if_pos common]
      exact closeTrace_agrees agrees _ _
    · rw [show machine.closeCommon answers.closeTrace = _ from if_neg common]
      exact agrees
  rw [refreshState_eq, RefreshSettles, ← state]
  split
  · case isTrue off => simp [off, start]
  · case isFalse switched =>
    simp [switched]
    exact openTrace_agrees_iff start _ _

omit agrees

theorem refreshSettles_close_iff :
    RefreshSettles .close switches answers ↔
      (switches &&& dev = dev → answers.reopen.closeTrace = .success →
        answers.reopen.openTrace = .success → answers.reopen.recordTraceOn = .success) := by
  by_cases dev : switches &&& dev = dev
  · have switched : switches ≠ 0 := by
      rintro rfl
      exact absurd dev (by decide)
    simp [RefreshSettles, OpenSettles, refreshStart, commonScenario, dev]
    simp [switched, scenarioCommonDropInfo, ScenarioName.hasState, TraceState.getStateLevel, ScenarioLevel.close,
      ScenarioLevel.commonDrop]
  · have common : ∀ isDeveloperMode, (commonScenario switches isDeveloperMode).name = .commonBeta := by
      intro isDeveloperMode
      simp [commonScenario, dev]
      split <;> rfl
    simp [RefreshSettles, OpenSettles, refreshStart, common, dev, ScenarioName.hasState]

theorem closeTrace_dev (machine : TraceStateMachine) (name : ScenarioName) (answer : TraceErrorCode) :
    (TraceState.closeTrace machine name answer).2.traceSwitchState &&& dev =
      machine.traceSwitchState &&& dev := by
  rcases closeTrace_switches machine name answer with same | ⟨-, -, cleared⟩
  · rw [same]
  · rw [cleared, UInt8.and_assoc]
    rfl

variable (agrees : machine.Agrees)
include agrees

theorem machineClose_agrees_iff (name : ScenarioName) (answer : TraceErrorCode)
    (refresh : RefreshAnswers) :
    (machine.closeTrace name answer refresh).2.Agrees ↔
      (machine.Closes name answer → RefreshSettles .close machine.traceSwitchState refresh) := by
  have kept := closeTrace_agrees agrees name answer
  rw [closeTrace]
  cases closeTrace_outcome machine name answer with
  | closed does succeeds state hitrace =>
    simp [succeeds, does]
    rw [refreshState_agrees_iff kept, state, refreshSettles_close_iff, refreshSettles_close_iff,
      closeTrace_dev]
  | refused not fails state hitrace =>
    simp [fails, not, iff_true]
    exact kept

theorem dumped_agrees_iff (ret : TraceRet) (refresh : RefreshAnswers) :
    (machine.dumped ret refresh).2.Agrees ↔
      (Refreshes ret → RefreshSettles machine.currentState machine.traceSwitchState refresh) := by
  rw [dumped]
  split
  · case isTrue refreshes =>
    have does : Refreshes ret := refreshes
    simp [does]
    exact refreshState_agrees_iff agrees refresh
  · case isFalse keeps =>
    have not : ¬ Refreshes ret := keeps
    simp [not, agrees]

theorem Agrees.command_opened (command : machine.currentState = .command) :
    ∃ opened, machine.hitrace = .opened opened ∧ opened.name = .command := by
  have name : machine.scenario = .command := by
    rw [scenario, command]
    rfl
  cases hitrace : machine.hitrace with
  | closed =>
    have close := agrees.closed.mpr hitrace
    rw [name] at close
    cases close
  | opened opened => exact ⟨opened, rfl, (agrees.opened opened hitrace).symm.trans name⟩
  | recording opened =>
    have drop := agrees.drop.mpr ⟨opened, hitrace⟩
    rw [name] at drop
    rcases drop with drop | drop <;> cases drop

theorem traceDropOn_agrees (name : ScenarioName) (answer : TraceErrorCode) :
    (machine.traceDropOn name answer).2.Agrees := by
  rcases traceDropOn_cases machine name answer with same | ⟨command, -, moved⟩
  · rwa [same]
  · obtain ⟨opened, isOpen, -⟩ := agrees.command_opened command
    have recording : machine.hitrace.recordTraceOn .success = .recording opened := by
      simp [isOpen, recordTraceOn]
    rw [moved]
    exact (agrees_recording recording).mpr (.inl rfl)

omit agrees

theorem traceDropOff_agrees (follows : machine.Follows) (name : ScenarioName) (answer : TraceErrorCode) :
    (machine.traceDropOff name answer).2.Agrees := by
  rcases traceDropOff_cases machine name answer with same | ⟨drop, -, moved⟩
  · rw [same]
    exact follows.agrees
  · obtain ⟨opened, isRecording⟩ := follows.agrees.drop.mp (.inl (by rw [scenario, drop]; rfl))
    have isCommand := follows.command opened drop isRecording
    have isOpen : machine.hitrace.recordTraceOff .success = .opened opened := by
      simp [isRecording, recordTraceOff]
    rw [moved]
    refine (agrees_opened isOpen).mpr ⟨isCommand.symm, ?_⟩
    simp [isCommand, ScenarioName.hasState]

theorem guard_iff (follows : machine.Follows) (label : TraceCall) :
    machine.Guard label ↔ ∀ next, machine.step label = some next → next.Agrees := by
  have agrees := follows.agrees
  have quiet : label.isQuiet = true → ∀ next, machine.step label = some next → next.Agrees := by
    intro isQuiet next stepped
    obtain ⟨result, called, rfl⟩ := Option.map_eq_some_iff.mp stepped
    obtain ⟨state, hitrace⟩ := call_quiet isQuiet called
    exact agrees.of_same state hitrace
  cases label with
  | openTrace scenario answers => exact (openTrace_agrees_iff agrees scenario answers).symm.trans (step_forall rfl).symm
  | closeTrace name answer refresh =>
    exact (machineClose_agrees_iff agrees name answer refresh).symm.trans (step_forall rfl).symm
  | traceDropOn name answer => exact iff_of_true trivial ((step_forall rfl).mpr (traceDropOn_agrees agrees name answer))
  | traceDropOff name answer =>
    exact iff_of_true trivial ((step_forall rfl).mpr (traceDropOff_agrees follows name answer))
  | dumpTrace name answer refresh | dumpTraceAsync name answer refresh =>
    exact (dumped_agrees_iff agrees _ refresh).symm.trans (step_forall rfl).symm
  | set setter refresh =>
    have switched : ({ machine with traceSwitchState := setter.switches machine.traceSwitchState } :
        TraceStateMachine).Agrees := agrees.of_same rfl rfl
    rw [step_forall rfl, set_eq]
    exact (refreshState_agrees_iff switched refresh).symm
  | dumpTraceWithFilter | telemetry | initTelemetryStatus | registerTelemetryCallback | passOn =>
    exact iff_of_true trivial (quiet rfl)

theorem Kept.of_same (state : next.currentState = machine.currentState) (hitrace : next.hitrace = machine.hitrace) :
    machine.Kept next :=
  fun _ drop recording => ⟨state ▸ drop, hitrace ▸ recording⟩

theorem Kept.of_state (state : next.currentState ≠ .commandDrop) : machine.Kept next :=
  fun _ drop _ => absurd drop state

theorem Kept.trans (first : machine.Kept middle) (second : middle.Kept next) :
    machine.Kept next := by
  intro scenario drop recording
  obtain ⟨before, recorded⟩ := second scenario drop recording
  exact first scenario before recorded

section
variable (machine : TraceStateMachine) (name : ScenarioName) (answer : TraceErrorCode)

theorem openTrace_kept (scenario : Scenario) (answers : OpenAnswers) :
    machine.Kept (TraceBaseState.openTrace machine scenario answers).2 := by
  fun_cases TraceBaseState.openTrace machine scenario answers with
  | case1 => exact .of_same rfl rfl
  | case2 higher closed failed => exact .of_same rfl (by simp [closed, Hitrace.closeTrace, failed])
  | case3 higher closed _ opened failed =>
    intro _ _ recording
    simp_all [closed, opened, Hitrace.closeTrace, Hitrace.openTrace]
  | case4 higher closed _ opened =>
    rw [enter]
    split
    · exact .of_state (by simp [transToCommandState])
    · exact .of_state (by simp [transToCommonState])
    · split
      · intro _ _ recording
        simp_all [opened, Hitrace.openTrace, recordTraceOn]
      · exact .of_state (by simp [transToCommonDropState])
    · exact .of_state (by simp [transToTelemetryState])
    · exact .of_state (by simp [transToAppSystemState])
    · exact .of_state (by simp [transToDynamicState])
    all_goals
      intro _ _ recording
      simp_all [opened, Hitrace.openTrace]

theorem closeTrace_kept :
    machine.Kept (TraceState.closeTrace machine name answer).2 := by
  cases closeTrace_outcome machine name answer with
  | closed does succeeds state hitrace => exact .of_state (by simp [state])
  | refused not fails state hitrace => exact .of_same state hitrace

theorem refreshState_kept (answers : RefreshAnswers) :
    machine.Kept (machine.refreshState answers).2 := by
  have start : machine.Kept (machine.closeCommon answers.closeTrace) := by
    rw [closeCommon]
    split
    · exact closeTrace_kept machine _ _
    · exact .of_same rfl rfl
  rw [refreshState_eq]
  split
  · exact start
  · exact start.trans (openTrace_kept _ _ _)

theorem dumped_kept (ret : TraceRet) (refresh : RefreshAnswers) :
    machine.Kept (machine.dumped ret refresh).2 := by
  rw [dumped]
  split
  · exact refreshState_kept machine refresh
  · exact .of_same rfl rfl

theorem machineClose_kept (refresh : RefreshAnswers) : machine.Kept (machine.closeTrace name answer refresh).2 := by
  have first := closeTrace_kept machine name answer
  rw [closeTrace]
  simp only
  split
  · exact first.trans (refreshState_kept _ refresh)
  · exact first

theorem traceDropOff_kept : machine.Kept (machine.traceDropOff name answer).2 := by
  rcases traceDropOff_cases machine name answer with same | ⟨-, -, moved⟩
  · rw [same]
    exact .of_same rfl rfl
  · rw [moved]
    exact .of_state (by simp [transToCommandState])

end

theorem traceDropOn_command (follows : machine.Follows) (name : ScenarioName) (answer : TraceErrorCode)
    (opened : Scenario) (drop : (machine.traceDropOn name answer).2.currentState = .commandDrop)
    (recording : (machine.traceDropOn name answer).2.hitrace = .recording opened) :
    opened.name = .command := by
  rcases traceDropOn_cases machine name answer with same | ⟨command, -, moved⟩
  · rw [same] at drop recording
    exact follows.command opened drop recording
  · obtain ⟨before, isOpen, isCommand⟩ := follows.agrees.command_opened command
    simp_all [recordTraceOn]

theorem step_follows (follows : machine.Follows) (stepped : machine.step label = some next) (agrees : next.Agrees) :
    next.Follows := by
  have kept : machine.Kept next → next.Follows := fun kept => ⟨agrees, fun scenario drop recording => by
    obtain ⟨before, recorded⟩ := kept scenario drop recording
    exact follows.command scenario before recorded⟩
  obtain ⟨result, called, rfl⟩ := Option.map_eq_some_iff.mp stepped
  cases label with
  | openTrace scenario answers =>
    cases called
    exact kept (openTrace_kept machine scenario answers)
  | closeTrace name answer refresh =>
    cases called
    exact kept (machineClose_kept machine name answer refresh)
  | traceDropOn name answer =>
    cases called
    exact ⟨agrees, traceDropOn_command follows name answer⟩
  | traceDropOff name answer =>
    cases called
    exact kept (traceDropOff_kept machine name answer)
  | dumpTrace name answer refresh | dumpTraceAsync name answer refresh =>
    cases called
    exact kept (dumped_kept machine _ refresh)
  | set setter refresh =>
    cases called
    refine kept ?_
    rw [set_eq]
    exact Kept.trans (.of_same rfl rfl) (refreshState_kept _ refresh)
  | dumpTraceWithFilter | telemetry | initTelemetryStatus | registerTelemetryCallback | passOn =>
    obtain ⟨state, hitrace⟩ := call_quiet rfl called
    refine kept fun _ drop recording => ⟨?_, hitrace ▸ recording⟩
    exact scenario_eq_commandDrop.mp (state ▸ scenario_eq_commandDrop.mpr drop)

end

theorem agrees_iff_guarded (labels : List TraceCall) :
    (∀ taken rest machine, labels = taken ++ rest → Transition.run step {} taken = some machine → machine.Agrees) ↔
      Transition.Guarded step Guard {} labels := by
  have start : Agrees {} := (agrees_closed rfl).mpr rfl
  have follows : Follows {} := ⟨start, fun _ drop => nomatch drop⟩
  exact (Transition.guarded_iff (fun follows => guard_iff follows _) step_follows Follows.agrees follows).symm

/-- The library closes the dynamic trace and does not open the command trace. -/
def openFails : List TraceCall :=
  [.openTrace { name := .appDynamic, level := ScenarioLevel.appDynamic } {},
    .openTrace { name := .command, level := ScenarioLevel.command } { openTrace := .wrongTraceMode }]

theorem openFails_disagrees :
    ∃ machine, Transition.run step {} openFails = some machine ∧ machine.scenario = .appDynamic ∧
      machine.hitrace = .closed ∧ ¬ machine.Agrees := by
  refine ⟨_, rfl, rfl, rfl, fun agrees => ?_⟩
  exact nomatch agrees.closed.mpr rfl

end TraceStateMachine
end Hiview.TraceManager
