import Hiview.TraceManager.TelemetryStateMachine

/-! The trace state machine with the hitrace library it drives. A call of the library
succeeds with its effect or answers another code and has none; the answers are given to
each call of the machine, under the name of the library function that is answered. -/
namespace Hiview.TraceManager

inductive Hitrace where
  | closed
  | opened (scenario : Scenario)
  | recording (scenario : Scenario)
  deriving DecidableEq

namespace Hitrace

def closeTrace (hitrace : Hitrace) (answer : TraceErrorCode) : Hitrace :=
  if answer = .success then .closed else hitrace

def openTrace (hitrace : Hitrace) (scenario : Scenario) (answer : TraceErrorCode) : Hitrace :=
  if answer = .success then .opened scenario else hitrace

def recordTraceOn (hitrace : Hitrace) (answer : TraceErrorCode) : Hitrace :=
  match hitrace with
  | .opened scenario => if answer = .success then .recording scenario else hitrace
  | .closed | .recording _ => hitrace

def recordTraceOff (hitrace : Hitrace) (answer : TraceErrorCode) : Hitrace :=
  match hitrace with
  | .recording scenario => if answer = .success then .opened scenario else hitrace
  | .closed | .opened _ => hitrace

end Hitrace

structure TelemetryState where
  policy : TelemetryPolicy
  hasCallback : Bool := false
  innerStateMachine : Option TeleMetryStateMachine := none
  deriving DecidableEq

/-- The state classes; `close` is `TraceBaseState` itself. -/
inductive TraceState where
  | close
  | command
  | commandDrop
  | common
  | commonDrop
  | telemetry (state : TelemetryState)
  | appSystem
  | dynamic
  deriving DecidableEq

namespace TraceState

def getStateScenario : TraceState → ScenarioName
  | .close => .close
  | .command => .command
  | .commandDrop => .commandDrop
  | .common => .commonBeta
  | .commonDrop => .commonDrop
  | .telemetry _ => .telemetry
  | .appSystem => .appSystem
  | .dynamic => .appDynamic

def getStateLevel : TraceState → Nat
  | .close => ScenarioLevel.close
  | .command => ScenarioLevel.command
  | .commandDrop => ScenarioLevel.commandDrop
  | .common => ScenarioLevel.commonBeta
  | .commonDrop => ScenarioLevel.commonDrop
  | .telemetry _ => ScenarioLevel.telemetry
  | .appSystem => ScenarioLevel.appSystem
  | .dynamic => ScenarioLevel.appDynamic

end TraceState

structure TraceStateMachine where
  currentState : TraceState := .close
  traceSwitchState : UInt8 := 0
  isCommandState : Bool := false
  hitrace : Hitrace := .closed
  deriving DecidableEq

/-- Answers to the library calls of `TraceBaseState::OpenTrace`. -/
structure OpenAnswers where
  closeTrace : TraceErrorCode := .success
  openTrace : TraceErrorCode := .success
  recordTraceOn : TraceErrorCode := .success
  deriving DecidableEq

/-- Answers to the library calls of `RefreshState`, and the parameter it reads. -/
structure RefreshAnswers where
  closeTrace : TraceErrorCode := .success
  isDeveloperMode : Bool := false
  reopen : OpenAnswers := {}
  deriving DecidableEq

def commonTags (sched : String) : List String :=
  ["net", "dsched", "graphic", "multimodalinput", "dinput", "ark", "ace", "window", "zaudio", "daudio",
    "zmedia", "dcamera", "zcamera", "dhfwk", "app", "gresource", "ability", "power", "samgr", "ffrt", "nweb",
    "hdf", "virse", "workq", "ipa", sched, "freq", "disk", "sync", "binder", "mmc", "membus", "load"]

def fileSizeLimit : Nat := 100 * 1024

def scenarioCommonDropInfo : Scenario :=
  { name := .commonDrop, level := ScenarioLevel.commonDrop, args := ⟨commonTags "sched", fileSizeLimit⟩ }

def scenarioCommonInfo : Scenario :=
  { name := .commonBeta, level := ScenarioLevel.commonBeta, args := ⟨commonTags "sched", fileSizeLimit⟩ }

def scenarioCommonSchedltInfo : Scenario :=
  { name := .commonBeta, level := ScenarioLevel.commonBeta, args := ⟨commonTags "schedlt", fileSizeLimit⟩ }

namespace TraceSwitch

def dev : UInt8 := 1

def freeze : UInt8 := 2

def ucollection : UInt8 := 4

def beta : UInt8 := 8

end TraceSwitch

namespace TraceStateMachine
variable (machine : TraceStateMachine)

def transToCommonState : TraceStateMachine := { machine with currentState := .common }

def transToCommonDropState : TraceStateMachine := { machine with currentState := .commonDrop }

def transToTelemetryState (policy : TelemetryPolicy) : TraceStateMachine :=
  { machine with currentState := .telemetry { policy := policy } }

def transToAppSystemState : TraceStateMachine := { machine with currentState := .appSystem }

def transToDynamicState : TraceStateMachine := { machine with currentState := .dynamic }

def transToCloseState : TraceStateMachine := { machine with currentState := .close }

def transToCommandState : TraceStateMachine :=
  { machine with currentState := .command, isCommandState := true }

def transToCommandDropState : TraceStateMachine := { machine with currentState := .commandDrop }

def closeVersionBeta : TraceStateMachine :=
  { machine with traceSwitchState := machine.traceSwitchState &&& ~~~TraceSwitch.beta }

end TraceStateMachine

namespace TraceBaseState
variable (machine : TraceStateMachine)

/-- The state after the library has opened the scenario; a name without a state of its
own leaves the current one. -/
def enter (answer : TraceErrorCode) (scenario : Scenario) : TraceRet × TraceStateMachine :=
  match scenario.name with
  | .command => ({}, machine.transToCommandState)
  | .commonBeta => ({}, machine.transToCommonState)
  | .commonDrop =>
    let recorded := { machine with hitrace := machine.hitrace.recordTraceOn answer }
    if answer ≠ .success then (.ofCode answer, recorded)
    else ({}, recorded.transToCommonDropState)
  | .telemetry => ({}, machine.transToTelemetryState scenario.tracePolicy)
  | .appSystem => ({}, machine.transToAppSystemState)
  | .appDynamic => ({}, machine.transToDynamicState)
  | .commandDrop | .close | .other _ => ({}, machine)

def openTrace (scenario : Scenario) (answers : OpenAnswers) : TraceRet × TraceStateMachine :=
  if scenario.level ≤ machine.currentState.getStateLevel then (.ofState .deny, machine)
  else
    let closed := { machine with hitrace := machine.hitrace.closeTrace answers.closeTrace }
    if answers.closeTrace ≠ .success then (.ofCode answers.closeTrace, closed)
    else
      let opened := { closed with hitrace := closed.hitrace.openTrace scenario answers.openTrace }
      if answers.openTrace ≠ .success then (.ofCode answers.openTrace, opened)
      else enter opened answers.recordTraceOn scenario

def closeTrace (scenarioName : ScenarioName) (answer : TraceErrorCode) : TraceRet × TraceStateMachine :=
  if machine.currentState.getStateScenario = .close then ({}, machine)
  else if scenarioName ≠ machine.currentState.getStateScenario then (.ofState .deny, machine)
  else
    let closed := { machine with hitrace := machine.hitrace.closeTrace answer }
    if answer ≠ .success then (.ofCode answer, closed) else ({}, closed.transToCloseState)

end TraceBaseState

namespace CommandState
variable (machine : TraceStateMachine) (scenarioName : ScenarioName) (answer : TraceErrorCode)

def traceDropOn : TraceRet × TraceStateMachine :=
  if scenarioName ≠ .command then (.ofState .fail, machine)
  else
    let recorded := { machine with hitrace := machine.hitrace.recordTraceOn answer }
    if answer ≠ .success then (.ofCode answer, recorded) else ({}, recorded.transToCommandDropState)

def closeTrace : TraceRet × TraceStateMachine :=
  let (ret, next) := TraceBaseState.closeTrace machine scenarioName answer
  if ret.isSuccess then (ret, { next with isCommandState := false }) else (ret, next)

end CommandState

namespace CommandDropState
variable (machine : TraceStateMachine) (scenarioName : ScenarioName) (answer : TraceErrorCode)

def traceDropOff : TraceRet × TraceStateMachine :=
  if scenarioName ≠ .commandDrop then (.ofState .fail, machine)
  else
    let stopped := { machine with hitrace := machine.hitrace.recordTraceOff answer }
    if answer ≠ .success then (.ofCode answer, stopped) else ({}, stopped.transToCommandState)

/-- `isCommandState_` stays as it is. -/
def closeTrace : TraceRet × TraceStateMachine :=
  if scenarioName ≠ .commandDrop ∧ scenarioName ≠ .command then (.ofState .deny, machine)
  else
    let closed := { machine with hitrace := machine.hitrace.closeTrace answer }
    if answer ≠ .success then (.ofCode answer, closed) else ({}, closed.transToCloseState)

end CommandDropState

namespace CommonState

def closeTrace (machine : TraceStateMachine) (scenarioName : ScenarioName) (answer : TraceErrorCode) :
    TraceRet × TraceStateMachine :=
  if scenarioName = .commonBeta then TraceBaseState.closeTrace machine scenarioName answer
  else if scenarioName = .command ∧ machine.isCommandState = false then
    TraceBaseState.closeTrace machine.closeVersionBeta .commonBeta answer
  else (.ofState .deny, machine)

end CommonState

namespace TelemetryState
variable (state : TelemetryState) (now : UInt64) (status : TraceErrorCode)

/-- The calls of the manual policy. -/
def manual (request : TelemetryCall) : Option (TraceRet × TelemetryState) :=
  match state.policy, state.innerStateMachine with
  | .manual, some inner =>
    (inner.call now status request).map fun (ret, next) =>
      (ret, { state with innerStateMachine := some next })
  | _, _ => some (.ofState .policyError, state)

def traceTelemetryOn : Option (TraceRet × TelemetryState) := manual state now status .traceOn

def traceTelemetryOff : Option (TraceRet × TelemetryState) := manual state now status .traceOff

def postTelemetryOn (time : UInt64) : Option (TraceRet × TelemetryState) :=
  manual state now status (.postOn time)

def postTelemetryTimeOut : Option (TraceRet × TelemetryState) := manual state now status .timeOut

/-- The calls of the power policy, which do nothing when the trace is as wanted. -/
def power (wanted : Bool) (request : TelemetryCall) : Option (TraceRet × TelemetryState) :=
  match state.policy, state.innerStateMachine with
  | .power, some inner =>
    inner.isTraceOn.bind fun isOn =>
      if isOn = wanted then some ({}, state)
      else (inner.call now status request).map fun (ret, next) =>
        (ret, { state with innerStateMachine := some next })
  | _, _ => some (.ofState .policyError, state)

def powerTelemetryOn : Option (TraceRet × TelemetryState) := power state now status true .traceOn

def powerTelemetryOff : Option (TraceRet × TelemetryState) := power state now status false .traceOff

def initTelemetryStatus (isStatusOn : Bool) : TelemetryState :=
  let inner : TeleMetryStateMachine := { stateCallback := if state.hasCallback then some [] else none }
  if !isStatusOn then
    { state with innerStateMachine := some (inner.transToInitState status).2 }
  else
    let (ret, next) := inner.transToTraceOnState status 0 0
    { state with innerStateMachine := some (if ret.isSuccess then next.tell true else next) }

def dumpTraceWithFilter (answer : TraceErrorCode) : Option TraceRet :=
  match state.policy, state.innerStateMachine with
  | .default, _ | _, none => some (.ofCode answer)
  | _, some inner => inner.isTraceOn.map fun isOn => if isOn then .ofCode answer else .ofState .fail

end TelemetryState

namespace TraceState

def closeTrace (machine : TraceStateMachine) (scenarioName : ScenarioName) (answer : TraceErrorCode) :
    TraceRet × TraceStateMachine :=
  match machine.currentState with
  | .command => CommandState.closeTrace machine scenarioName answer
  | .commandDrop => CommandDropState.closeTrace machine scenarioName answer
  | .common => CommonState.closeTrace machine scenarioName answer
  | .close | .commonDrop | .telemetry _ | .appSystem | .dynamic =>
    TraceBaseState.closeTrace machine scenarioName answer

/-- The scenarios that each state dumps for. -/
def dumps : TraceState → List ScenarioName
  | .command => [.command]
  | .common => [.commonBeta, .command]
  | .appSystem => [.appSystem]
  | .dynamic => [.appDynamic]
  | .close | .commandDrop | .commonDrop | .telemetry _ => []

def dumpTrace (state : TraceState) (scenarioName : ScenarioName) (answer : TraceErrorCode) : TraceRet :=
  if scenarioName ∈ state.dumps then .ofCode answer else .ofState .fail

def dumpTraceAsync (state : TraceState) (scenarioName : ScenarioName) (answer : TraceErrorCode) : TraceRet :=
  match state with
  | .common => if scenarioName ≠ .commonBeta then .ofState .fail else .ofCode answer
  | _ => .ofState .fail

end TraceState

namespace TraceStateMachine
variable (machine : TraceStateMachine) (scenarioName : ScenarioName) (answer : TraceErrorCode)
  (refresh : RefreshAnswers)

/-- The first part of `RefreshState`, whatever `CloseTrace` returns. -/
def closeCommon : TraceStateMachine :=
  let scenarioName := machine.currentState.getStateScenario
  if scenarioName = .commonBeta ∨ scenarioName = .commonDrop then
    (TraceState.closeTrace machine scenarioName answer).2
  else machine

def refreshState (answers : RefreshAnswers) : TraceRet × TraceStateMachine :=
  let next := machine.closeCommon answers.closeTrace
  if next.traceSwitchState = 0 then ({}, next)
  else if next.traceSwitchState &&& TraceSwitch.dev = TraceSwitch.dev then
    TraceBaseState.openTrace next scenarioCommonDropInfo answers.reopen
  else if answers.isDeveloperMode then
    TraceBaseState.openTrace next scenarioCommonInfo answers.reopen
  else TraceBaseState.openTrace next scenarioCommonSchedltInfo answers.reopen

def openTrace (scenario : Scenario) (answers : OpenAnswers) : TraceRet × TraceStateMachine :=
  TraceBaseState.openTrace machine scenario answers

def closeTrace : TraceRet × TraceStateMachine :=
  let (ret, next) := TraceState.closeTrace machine scenarioName answer
  if ret.isSuccess then next.refreshState refresh else (ret, next)

def traceDropOn : TraceRet × TraceStateMachine :=
  match machine.currentState with
  | .command => CommandState.traceDropOn machine scenarioName answer
  | _ => (.ofState .fail, machine)

def traceDropOff : TraceRet × TraceStateMachine :=
  match machine.currentState with
  | .commandDrop => CommandDropState.traceDropOff machine scenarioName answer
  | _ => (.ofState .fail, machine)

/-- A dump that finds the library in other hands refreshes the state. -/
def dumped (ret : TraceRet) (refresh : RefreshAnswers) : TraceRet × TraceStateMachine :=
  if ret.codeError = .traceIsOccupied ∨ ret.codeError = .wrongTraceMode then
    (ret, (machine.refreshState refresh).2)
  else (ret, machine)

def dumpTrace : TraceRet × TraceStateMachine :=
  machine.dumped (machine.currentState.dumpTrace scenarioName answer) refresh

def dumpTraceAsync : TraceRet × TraceStateMachine :=
  machine.dumped (machine.currentState.dumpTraceAsync scenarioName answer) refresh

def setSwitchOn (switch : UInt8) (refresh : RefreshAnswers) : TraceStateMachine :=
  (refreshState { machine with traceSwitchState := machine.traceSwitchState ||| switch } refresh).2

def setSwitchOff (switch : UInt8) (refresh : RefreshAnswers) : TraceStateMachine :=
  (refreshState { machine with traceSwitchState := machine.traceSwitchState &&& ~~~switch } refresh).2

def setTraceVersionBeta : TraceStateMachine := machine.setSwitchOn TraceSwitch.beta refresh

def setTraceSwitchUcOn : TraceStateMachine := machine.setSwitchOn TraceSwitch.ucollection refresh

def setTraceSwitchUcOff : TraceStateMachine := machine.setSwitchOff TraceSwitch.ucollection refresh

def setTraceSwitchFreezeOn : TraceStateMachine := machine.setSwitchOn TraceSwitch.freeze refresh

def setTraceSwitchFreezeOff : TraceStateMachine := machine.setSwitchOff TraceSwitch.freeze refresh

def setTraceSwitchDevOn : TraceStateMachine := machine.setSwitchOn TraceSwitch.dev refresh

def setTraceSwitchDevOff : TraceStateMachine := machine.setSwitchOff TraceSwitch.dev refresh

end TraceStateMachine

inductive SwitchSetter where
  | traceVersionBeta
  | traceSwitchUcOn
  | traceSwitchUcOff
  | traceSwitchFreezeOn
  | traceSwitchFreezeOff
  | traceSwitchDevOn
  | traceSwitchDevOff
  deriving DecidableEq

inductive TelemetryRequest where
  | traceOn
  | traceOff
  | postOn (time : UInt64)
  | timeOut
  | powerOn
  | powerOff
  deriving DecidableEq

/-- The calls of the machine, with the answers of the library. The calls that only hand
something to the library (cache, filters, attributes of files) are `passOn`. -/
inductive TraceCall where
  | openTrace (scenario : Scenario) (answers : OpenAnswers)
  | closeTrace (scenarioName : ScenarioName) (answer : TraceErrorCode) (refresh : RefreshAnswers)
  | traceDropOn (scenarioName : ScenarioName) (answer : TraceErrorCode)
  | traceDropOff (scenarioName : ScenarioName) (answer : TraceErrorCode)
  | dumpTrace (scenarioName : ScenarioName) (answer : TraceErrorCode) (refresh : RefreshAnswers)
  | dumpTraceAsync (scenarioName : ScenarioName) (answer : TraceErrorCode) (refresh : RefreshAnswers)
  | dumpTraceWithFilter (answer : TraceErrorCode)
  | set (setter : SwitchSetter) (refresh : RefreshAnswers)
  | telemetry (request : TelemetryRequest) (now : UInt64) (status : TraceErrorCode)
  | initTelemetryStatus (isStatusOn : Bool) (status : TraceErrorCode)
  | registerTelemetryCallback
  | passOn
  deriving DecidableEq

def TelemetryState.request (state : TelemetryState) (now : UInt64) (status : TraceErrorCode) :
    TelemetryRequest → Option (TraceRet × TelemetryState)
  | .traceOn => state.traceTelemetryOn now status
  | .traceOff => state.traceTelemetryOff now status
  | .postOn time => state.postTelemetryOn now status time
  | .timeOut => state.postTelemetryTimeOut now status
  | .powerOn => state.powerTelemetryOn now status
  | .powerOff => state.powerTelemetryOff now status

namespace TraceStateMachine
variable (machine : TraceStateMachine)

def set (refresh : RefreshAnswers) : SwitchSetter → TraceStateMachine
  | .traceVersionBeta => machine.setTraceVersionBeta refresh
  | .traceSwitchUcOn => machine.setTraceSwitchUcOn refresh
  | .traceSwitchUcOff => machine.setTraceSwitchUcOff refresh
  | .traceSwitchFreezeOn => machine.setTraceSwitchFreezeOn refresh
  | .traceSwitchFreezeOff => machine.setTraceSwitchFreezeOff refresh
  | .traceSwitchDevOn => machine.setTraceSwitchDevOn refresh
  | .traceSwitchDevOff => machine.setTraceSwitchDevOff refresh

/-- A call with what it returns. It does not return when the telemetry state has an
inner machine without a current state. -/
def call : TraceCall → Option (TraceRet × TraceStateMachine)
  | .openTrace scenario answers => some (machine.openTrace scenario answers)
  | .closeTrace scenarioName answer refresh => some (machine.closeTrace scenarioName answer refresh)
  | .traceDropOn scenarioName answer => some (machine.traceDropOn scenarioName answer)
  | .traceDropOff scenarioName answer => some (machine.traceDropOff scenarioName answer)
  | .dumpTrace scenarioName answer refresh => some (machine.dumpTrace scenarioName answer refresh)
  | .dumpTraceAsync scenarioName answer refresh =>
    some (machine.dumpTraceAsync scenarioName answer refresh)
  | .dumpTraceWithFilter answer =>
    match machine.currentState with
    | .telemetry state => (state.dumpTraceWithFilter answer).map (·, machine)
    | _ => some (.ofState .fail, machine)
  | .set setter refresh => some ({}, machine.set refresh setter)
  | .telemetry request now status =>
    match machine.currentState with
    | .telemetry state =>
      (state.request now status request).map fun (ret, next) =>
        (ret, { machine with currentState := .telemetry next })
    | _ => some (.ofState .fail, machine)
  | .initTelemetryStatus isStatusOn status =>
    match machine.currentState with
    | .telemetry state =>
      some ({}, { machine with currentState := .telemetry (state.initTelemetryStatus status isStatusOn) })
    | _ => some ({}, machine)
  | .registerTelemetryCallback =>
    match machine.currentState with
    | .telemetry state => some ({}, { machine with currentState := .telemetry { state with hasCallback := true } })
    | _ => some ({}, machine)
  | .passOn => some ({}, machine)

def step (label : TraceCall) : Option TraceStateMachine := (machine.call label).map Prod.snd

end TraceStateMachine
end Hiview.TraceManager
