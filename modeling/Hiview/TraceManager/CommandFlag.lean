import Hiview.TraceManager.TracePriority
import Hiview.Lib.Transition

/-! The command flag of the trace state machine. `CommandState::CloseTrace` clears it and
entering the command state sets it; the other ways out of the command states leave it
set, and the common state then denies the command's close. -/
namespace Hiview.TraceManager
open TraceBaseState (enter)
open TraceState (getStateScenario)

def TraceState.isCommand : TraceState → Bool
  | .command | .commandDrop => true
  | .close | .common | .commonDrop | .telemetry _ | .appSystem | .dynamic => false

/-- An opened scenario gets a state that is not a command state. -/
def Scenario.Leaves (scenario : Scenario) (recordTraceOn : TraceErrorCode) : Prop :=
  scenario.name.hasState = true ∧ scenario.name ≠ .command ∧
    (scenario.name = .commonDrop → recordTraceOn = .success)

namespace TraceStateMachine
variable (machine : TraceStateMachine)

/-- `GetCommandState` tells the command states, and the command's close of a common trace
is not denied. -/
structure FlagExact : Prop where
  flag : machine.isCommandState = true ↔ machine.currentState = .command ∨ machine.currentState = .commandDrop
  closable : machine.scenario = .commonBeta → ∀ answer refresh,
    (machine.closeTrace .command answer refresh).1.stateError ≠ .deny

/-- The library opens the scenario. -/
def Opens (scenario : Scenario) (answers : OpenAnswers) : Prop :=
  machine.level < scenario.level ∧ answers.closeTrace = .success ∧ answers.openTrace = .success

/-- The call does not leave the command states with the flag set. -/
def FlagGuard : TraceCall → Prop
  | .openTrace scenario answers =>
    machine.currentState.isCommand = true →
      ¬ (machine.Opens scenario answers ∧ scenario.Leaves answers.recordTraceOn)
  | .closeTrace name answer _ => machine.currentState = .commandDrop → ¬ machine.Closes name answer
  | .traceDropOn _ _ | .traceDropOff _ _ | .dumpTrace _ _ _ | .dumpTraceAsync _ _ _ | .dumpTraceWithFilter _
  | .set _ _ | .telemetry _ _ _ | .initTelemetryStatus _ _ | .registerTelemetryCallback | .passOn => True

/-- The flag and whether a command state is current stay as they are. -/
structure FlagKept (machine next : TraceStateMachine) : Prop where
  flag : next.isCommandState = machine.isCommandState
  state : next.currentState.isCommand = machine.currentState.isCommand

inductive OpenFlag (scenario : Scenario) (leaves : Prop) (next : TraceStateMachine) : Prop where
  | kept (not : ¬ leaves) (same : machine.FlagKept next)
  | entered (not : ¬ leaves) (command : scenario.name = .command) (flag : next.isCommandState = true)
      (state : next.currentState.isCommand = true)
  | left (does : leaves) (flag : next.isCommandState = machine.isCommandState)
      (state : next.currentState.isCommand = false)

variable {machine}

theorem isCommand_iff {state : TraceState} :
    state.isCommand = true ↔ state = .command ∨ state = .commandDrop := by
  cases state <;> simp [TraceState.isCommand]

theorem level_of_isCommand (command : machine.currentState.isCommand = true) :
    machine.level = ScenarioLevel.command := by
  rcases isCommand_iff.mp command with state | state <;> rw [level, state] <;> rfl

theorem FlagKept.refl (machine : TraceStateMachine) : machine.FlagKept machine := ⟨rfl, rfl⟩

theorem FlagKept.trans (first : machine.FlagKept middle) (second : middle.FlagKept next) : machine.FlagKept next :=
  ⟨second.flag.trans first.flag, second.state.trans first.state⟩

/-! ### Opening -/

theorem enter_flag (machine : TraceStateMachine) (answer : TraceErrorCode) (scenario : Scenario) :
    machine.OpenFlag scenario (scenario.Leaves answer) (enter machine answer scenario).2 := by
  rw [enter]
  cases name : scenario.name with
  | command => exact .entered (by simp [Scenario.Leaves, name]) name rfl rfl
  | commonDrop =>
    simp only
    split
    · case isTrue failed => exact .kept (by simp [Scenario.Leaves, name, failed]) ⟨rfl, rfl⟩
    · case isFalse recorded =>
      exact .left (by simp [Scenario.Leaves, name, ScenarioName.hasState, not_not.mp recorded]) rfl rfl
  | commonBeta | telemetry | appSystem | appDynamic =>
    exact .left (by simp [Scenario.Leaves, name, ScenarioName.hasState]) rfl rfl
  | commandDrop | close | other =>
    exact .kept (by simp [Scenario.Leaves, name, ScenarioName.hasState]) ⟨rfl, rfl⟩

theorem openTrace_flag (machine : TraceStateMachine) (scenario : Scenario) (answers : OpenAnswers) :
    machine.OpenFlag scenario (machine.Opens scenario answers ∧ scenario.Leaves answers.recordTraceOn)
      (TraceBaseState.openTrace machine scenario answers).2 := by
  fun_cases TraceBaseState.openTrace machine scenario answers with
  | case1 low => exact .kept (fun both => absurd both.1.1 (Nat.not_lt.mpr low)) (.refl machine)
  | case2 higher _ failed => exact .kept (fun both => failed both.1.2.1) ⟨rfl, rfl⟩
  | case3 higher _ closes _ failed => exact .kept (fun both => failed both.1.2.2) ⟨rfl, rfl⟩
  | case4 higher _ closes entering opens =>
    have does : machine.Opens scenario answers := ⟨Nat.lt_of_not_le higher, not_not.mp closes, not_not.mp opens⟩
    have same : machine.FlagKept entering := ⟨rfl, rfl⟩
    cases enter_flag entering answers.recordTraceOn scenario with
    | kept not kept => exact .kept (fun both => not both.2) (same.trans kept)
    | entered not command flag state => exact .entered (fun both => not both.2) command flag state
    | left leaves flag state => exact .left ⟨does, leaves⟩ flag state

theorem openTrace_denied {scenario : Scenario}
    (denied : (TraceBaseState.openTrace machine scenario answers).1.stateError = .deny) :
    scenario.level ≤ machine.level := by
  revert denied
  fun_cases TraceBaseState.openTrace machine scenario answers with
  | case1 low => exact fun _ => low
  | case4 =>
    rw [enter]
    split
    case h_3 =>
      split <;> rintro ⟨⟩
    all_goals rintro ⟨⟩
  | _ => rintro ⟨⟩

/-! ### Closing and refreshing -/

section
variable (machine : TraceStateMachine) (name : ScenarioName) (answer : TraceErrorCode)

theorem closeTrace_flag :
    (TraceState.closeTrace machine name answer).2.isCommandState =
      if machine.currentState = .command ∧ machine.Closes name answer then false else machine.isCommandState := by
  have outcome := closeTrace_outcome machine name answer
  rw [TraceState.closeTrace] at outcome ⊢
  split
  · case h_1 command =>
    simp only [command, CommandState.closeTrace] at outcome ⊢
    split
    · case isTrue succeeds =>
      rw [if_pos succeeds] at outcome
      cases outcome with
      | closed does => simp [does]
      | refused _ fails => exact absurd (succeeds.symm.trans fails) (by simp)
    · case isFalse fails =>
      rw [if_neg fails] at outcome
      cases outcome with
      | closed _ succeeds => exact absurd succeeds fails
      | refused not => simp [not, baseClose_keeps]
  · case h_2 drop =>
    rw [if_neg (by simp [drop])]
    exact (commandDropClose_keeps machine name answer).2
  · case h_3 common =>
    rw [if_neg (by simp [common]), CommonState.closeTrace]
    split
    · exact (baseClose_keeps machine name answer).2
    · split
      · exact (baseClose_keeps machine.closeVersionBeta .commonBeta answer).2
      · rfl
  all_goals
    case _ state =>
      rw [if_neg (by simp [state])]
      exact (baseClose_keeps machine name answer).2

theorem closeCommon_flag :
    machine.FlagKept (machine.closeCommon answer) := by
  constructor
  · rw [closeCommon]
    split
    · case isTrue common =>
      have notCommand : machine.currentState ≠ .command := by
        intro command
        simp [command, getStateScenario] at common
      rw [closeTrace_flag, if_neg fun both => notCommand both.1]
    · rfl
  · rcases closeCommon_scenario machine answer with state | ⟨common, closed⟩
    · rw [state]
    · have notCommand : machine.currentState.isCommand = false := by
        rcases isCommon_iff.mp common with state | state <;> rw [state] <;> rfl
      rw [closed, notCommand]
      rfl

theorem refreshState_flag (answers : RefreshAnswers) :
    machine.FlagKept (machine.refreshState answers).2 := by
  have start := closeCommon_flag machine answers.closeTrace
  have common := commonScenario_isCommon machine.traceSwitchState answers.isDeveloperMode
  have low : (commonScenario machine.traceSwitchState answers.isDeveloperMode).level < ScenarioLevel.command := by
    rw [commonScenario]
    split_ifs <;> decide
  rw [refreshState_eq]
  split
  · exact start
  · refine start.trans ?_
    cases openTrace_flag (machine.closeCommon answers.closeTrace)
      (commonScenario machine.traceSwitchState answers.isDeveloperMode) answers.reopen with
    | kept not same => exact same
    | entered not command flag state =>
      rw [command] at common
      exact absurd common (by simp [ScenarioName.IsCommon])
    | left does flag state =>
      refine ⟨flag, state.trans ?_⟩
      cases command : (machine.closeCommon answers.closeTrace).currentState.isCommand with
      | false => rfl
      | true =>
        have higher := does.1.1
        rw [level_of_isCommand command] at higher
        exact absurd low (Nat.lt_asymm higher)

variable (refresh : RefreshAnswers)

theorem machineClose_flag :
    (TraceState.closeTrace machine name answer).2.FlagKept (machine.closeTrace name answer refresh).2 := by
  rw [closeTrace]
  simp only
  split
  · exact refreshState_flag _ refresh
  · exact .refl _

theorem dumped_flag (ret : TraceRet) (refresh : RefreshAnswers) :
    machine.FlagKept (machine.dumped ret refresh).2 := by
  rw [dumped]
  split
  · exact refreshState_flag machine refresh
  · exact .refl machine

theorem set_flag (setter : SwitchSetter) :
    machine.FlagKept (machine.set refresh setter) := by
  obtain ⟨flag, state⟩ := refreshState_flag
    { machine with traceSwitchState := setter.switches machine.traceSwitchState } refresh
  rw [set_eq]
  exact ⟨flag, state⟩

end

/-! ### The guard is exact -/

theorem FlagKept.exact_iff (same : machine.FlagKept next) :
    next.isCommandState = next.currentState.isCommand ↔
      machine.isCommandState = machine.currentState.isCommand := by
  rw [same.flag, same.state]

variable (flag : machine.isCommandState = machine.currentState.isCommand)
include flag

theorem openTrace_exact_iff
    (scenario : Scenario) (answers : OpenAnswers) :
    (TraceBaseState.openTrace machine scenario answers).2.isCommandState =
        (TraceBaseState.openTrace machine scenario answers).2.currentState.isCommand ↔
      machine.FlagGuard (.openTrace scenario answers) := by
  rw [FlagGuard]
  cases openTrace_flag machine scenario answers with
  | kept not same => simp [same.exact_iff, flag, not]
  | entered not command set state => simp [set, state, not]
  | left does unset state => simp [unset, state, flag, does]

theorem closeTrace_exact_iff
    (name : ScenarioName) (answer : TraceErrorCode) (refresh : RefreshAnswers) :
    (machine.closeTrace name answer refresh).2.isCommandState =
        (machine.closeTrace name answer refresh).2.currentState.isCommand ↔
      machine.FlagGuard (.closeTrace name answer refresh) := by
  rw [(machineClose_flag machine name answer refresh).exact_iff, FlagGuard, closeTrace_flag]
  cases closeTrace_outcome machine name answer with
  | closed does succeeds state hitrace =>
    rw [state, flag]
    cases machine.currentState <;> simp [does, TraceState.isCommand]
  | refused not fails state hitrace => simp [state, flag, not]

omit flag

theorem traceDropOn_flag (machine : TraceStateMachine) (name : ScenarioName) (answer : TraceErrorCode) :
    machine.FlagKept (machine.traceDropOn name answer).2 := by
  rcases traceDropOn_cases machine name answer with same | ⟨command, -, moved⟩
  · rw [same]
    exact .refl machine
  · rw [moved]
    exact ⟨rfl, by rw [command]; rfl⟩

theorem traceDropOff_flag (flag : machine.isCommandState = machine.currentState.isCommand)
    (name : ScenarioName) (answer : TraceErrorCode) :
    machine.FlagKept (machine.traceDropOff name answer).2 := by
  rcases traceDropOff_cases machine name answer with same | ⟨drop, -, moved⟩
  · rw [same]
    exact .refl machine
  · rw [drop] at flag
    rw [moved]
    exact ⟨flag.symm, by rw [drop]; rfl⟩

theorem call_quiet_flag (quiet : label.isQuiet = true) (called : machine.call label = some result) :
    machine.FlagKept result.2 := by
  rcases call_quiet_cases quiet called with same | ⟨before, after, isTelemetry, same⟩ <;> rw [same]
  · exact ⟨rfl, rfl⟩
  · exact ⟨rfl, by rw [isTelemetry]; rfl⟩

/-- From a state in which the flag is exact, it stays so under exactly the guarded calls. -/
theorem flagGuard_iff (flag : machine.isCommandState = machine.currentState.isCommand) (label : TraceCall) :
    machine.FlagGuard label ↔
      ∀ next, machine.step label = some next → next.isCommandState = next.currentState.isCommand := by
  cases label with
  | openTrace scenario answers => rw [step_forall rfl, openTrace, openTrace_exact_iff flag]
  | closeTrace name answer refresh => rw [step_forall rfl, closeTrace_exact_iff flag]
  | traceDropOn name answer =>
    exact iff_of_true trivial ((step_forall rfl).mpr ((traceDropOn_flag machine name answer).exact_iff.mpr flag))
  | traceDropOff name answer =>
    exact iff_of_true trivial ((step_forall rfl).mpr ((traceDropOff_flag flag name answer).exact_iff.mpr flag))
  | dumpTrace name answer refresh | dumpTraceAsync name answer refresh =>
    exact iff_of_true trivial ((step_forall rfl).mpr ((dumped_flag machine _ refresh).exact_iff.mpr flag))
  | set setter refresh =>
    exact iff_of_true trivial ((step_forall rfl).mpr ((set_flag machine refresh setter).exact_iff.mpr flag))
  | dumpTraceWithFilter | telemetry | initTelemetryStatus | registerTelemetryCallback | passOn =>
    refine iff_of_true trivial fun next stepped => ?_
    obtain ⟨result, called, rfl⟩ := Option.map_eq_some_iff.mp stepped
    exact (call_quiet_flag rfl called).exact_iff.mpr flag

/-! ### The command's close of a common trace -/

theorem refreshState_not_denied (closed : machine.currentState = .close) (answers : RefreshAnswers) :
    (machine.refreshState answers).1.stateError ≠ .deny := by
  obtain ⟨state, -, -⟩ := closeCommon_spec machine answers.closeTrace
  rw [refreshState_eq]
  split
  · intro denied
    cases denied
  · intro denied
    have level := openTrace_denied denied
    have start : (machine.closeCommon answers.closeTrace).level = ScenarioLevel.close := by
      rw [TraceStateMachine.level, state, closed]
      rfl
    rw [start] at level
    exact absurd (Nat.le_trans (commonScenario_level _ _) level) (by decide)

theorem command_not_denied (common : machine.scenario = .commonBeta) (unset : machine.isCommandState = false)
    (answer : TraceErrorCode) (refresh : RefreshAnswers) :
    (machine.closeTrace .command answer refresh).1.stateError ≠ .deny := by
  have state : machine.currentState = .common := by
    rw [scenario] at common
    cases current : machine.currentState <;> simp_all [getStateScenario]
  have closed : TraceState.closeTrace machine .command answer =
      if answer ≠ .success then
        (.ofCode answer,
          { machine.closeVersionBeta with hitrace := machine.hitrace.closeTrace answer })
      else
        ({}, transToCloseState
          { machine.closeVersionBeta with hitrace := machine.hitrace.closeTrace answer }) := by
    simp [TraceState.closeTrace, state, CommonState.closeTrace, unset, TraceBaseState.closeTrace,
      closeVersionBeta, getStateScenario]
  rw [closeTrace, closed]
  by_cases success : answer = .success
  · simp [success, TraceRet.isSuccess_default]
    exact refreshState_not_denied rfl refresh
  · simp [success, TraceRet.isSuccess_ofCode]
    intro denied
    cases denied

theorem flagExact_iff : machine.FlagExact ↔ machine.isCommandState = machine.currentState.isCommand := by
  have same : machine.isCommandState = machine.currentState.isCommand ↔
      (machine.isCommandState = true ↔ machine.currentState = .command ∨ machine.currentState = .commandDrop) := by
    rw [← isCommand_iff]
    exact Bool.eq_iff_iff
  refine ⟨fun exactly => same.mpr exactly.flag, fun flag => ⟨same.mp flag, fun common => ?_⟩⟩
  apply command_not_denied common
  rw [scenario] at common
  cases current : machine.currentState <;> simp_all [getStateScenario, TraceState.isCommand]

theorem flagExact_iff_guarded (labels : List TraceCall) :
    (∀ taken rest machine, labels = taken ++ rest → Transition.run step {} taken = some machine →
        machine.FlagExact) ↔
      Transition.Guarded step FlagGuard {} labels := by
  have start : FlagExact {} := flagExact_iff.mpr rfl
  refine (Transition.guarded_iff ?_ (fun _ _ reached => reached) id start).symm
  intro machine label exactly
  rw [flagGuard_iff (flagExact_iff.mp exactly)]
  exact forall₂_congr fun next _ => flagExact_iff.symm

/-- The command trace is recorded and then closed; the beta trace takes over. -/
def recordedCommand : List TraceCall :=
  [.set .traceVersionBeta {}, .openTrace { name := .command, level := ScenarioLevel.command } {},
    .traceDropOn .command .success, .closeTrace .commandDrop .success {}]

theorem recordedCommand_denied :
    ∃ machine, Transition.run step {} recordedCommand = some machine ∧ machine.scenario = .commonBeta ∧
      machine.isCommandState = true ∧ (machine.closeTrace .command .success {}).1.stateError = .deny :=
  ⟨_, rfl, rfl, rfl, rfl⟩

end TraceStateMachine
end Hiview.TraceManager
