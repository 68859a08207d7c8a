import Hiview.TraceManager.TraceCommon

/-! The state machine inside the telemetry scenario. The count of `TraceOn` calls and
the end of a `PostOn` are members of `traceOnState_`, one object that is kept while
the machine is in its other state. -/
namespace Hiview.TraceManager

inductive BaseState where
  | init
  | traceOn
  deriving DecidableEq

/-- `currentState_` is null until a first transition succeeds. A registered callback
is the list of what it was told. -/
structure TeleMetryStateMachine where
  currentState : Option BaseState := none
  traceOnCount : UInt32 := 0
  postEndTime : UInt64 := 0
  stateCallback : Option (List Bool) := none
  deriving DecidableEq

inductive TelemetryCall where
  | traceOn
  | traceOff
  | postOn (time : UInt64)
  | timeOut
  deriving DecidableEq

namespace TeleMetryStateMachine

variable (machine : TeleMetryStateMachine)

/-- `OnTelemetryTraceOn` and `OnTelemetryTraceOff` of the callback. -/
def tell (isOn : Bool) : TeleMetryStateMachine :=
  { machine with stateCallback := machine.stateCallback.map (· ++ [isOn]) }

def transToInitState (status : TraceErrorCode) :
    TraceRet × TeleMetryStateMachine :=
  if status ≠ .success then (.ofCode status, machine)
  else ({}, { machine with currentState := some .init })

def transToTraceOnState (status : TraceErrorCode)
    (traceOnCount : UInt32) (postEndTime : UInt64) : TraceRet × TeleMetryStateMachine :=
  if status ≠ .success then (.ofCode status, machine)
  else ({}, { machine with
    currentState := some .traceOn, traceOnCount := traceOnCount, postEndTime := postEndTime })

end TeleMetryStateMachine

namespace InitState
variable (machine : TeleMetryStateMachine) (now : UInt64) (status : TraceErrorCode)

def traceOn : TraceRet × TeleMetryStateMachine :=
  let (ret, next) := machine.transToTraceOnState status 1 0
  if ret.isSuccess then ({}, next.tell true) else (ret, next)

def traceOff : TraceRet × TeleMetryStateMachine := ({}, machine)

def postOn (time : UInt64) : TraceRet × TeleMetryStateMachine :=
  let postEndTime := now + time
  let (ret, next) := machine.transToTraceOnState status 0 postEndTime
  if ret.isSuccess then (.ofState .updateTime, next.tell true) else (ret, next)

def timeOut : TraceRet × TeleMetryStateMachine := ({}, machine)

end InitState

namespace TraceOnState
variable (machine : TeleMetryStateMachine) (now : UInt64) (status : TraceErrorCode)

def traceOn : TraceRet × TeleMetryStateMachine :=
  ({}, { machine with traceOnCount := machine.traceOnCount + 1 })

def traceOff : TraceRet × TeleMetryStateMachine :=
  if machine.postEndTime > 0 ∨ machine.traceOnCount > 1 then
    (.ofState .noTrigger,
      if machine.traceOnCount > 1 then
        { machine with traceOnCount := machine.traceOnCount - 1 }
      else machine)
  else
    let (ret, next) := machine.transToInitState status
    if ret.isSuccess then ({}, next.tell false) else (ret, next)

def postOn (time : UInt64) : TraceRet × TeleMetryStateMachine :=
  let postEndTime := now + time
  if postEndTime < machine.postEndTime then ({}, machine)
  else (.ofState .updateTime, { machine with postEndTime := postEndTime })

def timeOut : TraceRet × TeleMetryStateMachine :=
  if now < machine.postEndTime then (.ofState .noTrigger, machine)
  else
    let ended := { machine with postEndTime := 0 }
    if ended.traceOnCount > 0 then (.ofState .noTrigger, ended)
    else
      let (ret, next) := ended.transToInitState status
      if ret.isSuccess then ({}, next.tell false) else (ret, next)

end TraceOnState

namespace TeleMetryStateMachine

/-- A call goes to the current state, whatever the boot clock shows and the library
answers to `SetTraceStatus`; without a current state it does not return. -/
def call (machine : TeleMetryStateMachine) (now : UInt64) (status : TraceErrorCode)
    (request : TelemetryCall) : Option (TraceRet × TeleMetryStateMachine) :=
  machine.currentState.map fun
    | .init =>
      match request with
      | .traceOn => InitState.traceOn machine status
      | .traceOff => InitState.traceOff machine
      | .postOn time => InitState.postOn machine now status time
      | .timeOut => InitState.timeOut machine
    | .traceOn =>
      match request with
      | .traceOn => TraceOnState.traceOn machine
      | .traceOff => TraceOnState.traceOff machine status
      | .postOn time => TraceOnState.postOn machine now time
      | .timeOut => TraceOnState.timeOut machine now status

def isTraceOn (machine : TeleMetryStateMachine) : Option Bool :=
  machine.currentState.map fun
    | .init => false
    | .traceOn => true

end TeleMetryStateMachine
end Hiview.TraceManager
