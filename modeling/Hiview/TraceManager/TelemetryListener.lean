import Hiview.Lib.Transition
import Hiview.TraceManager.TraceCommon

/-! The listener for telemetry messages. A message that switches telemetry on submits a task, which
waits for its begin time and then opens the trace; one that switches it off closes the trace and sets
a flag that all tasks share. A task looks at the flag when it wakes up before its time and once more,
under the mutex, before it starts. -/
namespace Hiview.TraceManager

/-- The text under `traceArgs`: what its parser makes of it. -/
inductive TraceArgsText
  | empty
  | unparsable
  | parsed (tags : List String) (bufferSize : Int64)

structure TelemetryMessage where
  telemetryId : String
  traceArgs : TraceArgsText
  tracePolicy : String
  telemetryStatus : String
  traceOpenTime : Int64
  traceDuration : Int64
  appFilterNames : List String
  saNames : List String
  xperfTraceQuota : Int64
  xpowerTraceQuota : Int64
  reliabilityTraceQuota : Int64
  traceQuota : Int64

structure FlowControlQuotas where
  xperf : Int64 := 0
  xpower : Int64 := 0
  reliability : Int64 := 0
  total : Int64 := 0

structure TelemetryParams where
  traceDuration : Int64 := 3600 * 1000
  isNewTask : Bool := false
  beginTime : Int64 := -1
  telemetryId : String := ""
  appFilterNames : List String := []
  saParameters : List String := []
  traceTag : List String := []
  bufferSize : UInt32 := 0
  tracePolicy : TelemetryPolicy := .default
  flowControlQuotas : FlowControlQuotas := {}

/-- The result of `QueryRunningTime`. -/
inductive TelemetryRet
  | success (runningTime : Int64)
  | overFlow
  | emptyData
  | failed

/-- What `CheckValidParam` decides: an error event is written, telemetry is switched off, or a task is
submitted. -/
inductive Verdict
  | error (telemetryId : String) (errorMsg : String)
  | close
  | start (params : TelemetryParams)

namespace TelemetryListener

def traceTagFilterList : List String :=
  ["sched", "freq", "disk", "sync", "binder", "mmc", "membus", "load", "pagecache", "workq", "net", "dsched",
    "graphic", "multimodalinput", "dinput", "ark", "ace", "window", "zaudio", "daudio", "zmedia", "dcamera",
    "zcamera", "dhfwk", "app", "ability", "power", "samgr", "nweb"]

def maxBufferSize : UInt32 := 500 * 1024
def maxDuration : Int64 := 7 * 24 * 3600 * 1000
def durationDefault : Int64 := 3600 * 1000
def btMUnit : Int64 := 1024 * 1024
def maxTotalSize : Int64 := 1024
def defaultModuleSize : Int64 := 20 * 1024 * 1024
def defaultTotalSize : Int64 := 50 * 1024 * 1024

def processTraceTag : TraceArgsText → Option (List String × UInt32)
  | .empty => none
  | .unparsable => none
  | .parsed tags bufferSize =>
    let kept := tags.filter fun tag => traceTagFilterList.elem tag
    let size := bufferSize.toUInt64.toUInt32
    if kept.isEmpty || size == 0 then none
    else some (kept, if maxBufferSize < size then maxBufferSize else size)

variable (message : TelemetryMessage)

def checkTraceTags (params : TelemetryParams) : Option TelemetryParams :=
  match message.traceArgs with
  | .empty => some params
  | text => (processTraceTag text).map fun (traceTag, bufferSize) => { params with traceTag, bufferSize }

def checkTracePolicy (params : TelemetryParams) : Option TelemetryParams :=
  if message.tracePolicy = "" then some params
  else if message.tracePolicy = "power" then some { params with tracePolicy := .power }
  else if message.tracePolicy = "manual" then some { params with tracePolicy := .manual }
  else none

def traceDuration (message : TelemetryMessage) : Int64 :=
  let duration := message.traceDuration * 1000
  if duration ≤ 0 then durationDefault else if maxDuration < duration then maxDuration else duration

/-- The parameters, or the text of the error. -/
def checkTimeOut (queried : TelemetryRet) (params : TelemetryParams) :
    Except String TelemetryParams :=
  let params := { params with traceDuration := traceDuration message }
  match queried with
  | .failed => .error "failed to query running time"
  | .emptyData => .ok { params with isNewTask := true }
  | .success runningTime =>
    if params.traceDuration ≤ runningTime then .error "trace already time out" else .ok params
  | .overFlow => .ok params

def moduleQuota (quota : Int64) : Int64 :=
  if 0 ≤ quota then quota * btMUnit else defaultModuleSize

def totalQuota (quota : Int64) : Int64 :=
  if 0 < quota ∧ quota ≤ maxTotalSize then quota * btMUnit
  else if maxTotalSize < quota then maxTotalSize * btMUnit
  else defaultTotalSize

/-- `SetFilterConfigs` and `SetFlowQuotaConfigs`. -/
def setConfigs (params : TelemetryParams) : TelemetryParams :=
  { params with
    appFilterNames := message.appFilterNames
    saParameters := message.saNames.map fun saName => "startup.service.ctl." ++ saName ++ ".pid"
    flowControlQuotas :=
      ⟨moduleQuota message.xperfTraceQuota, moduleQuota message.xpowerTraceQuota,
        moduleQuota message.reliabilityTraceQuota, totalQuota message.traceQuota⟩ }

/-- The checks in their order; switching off needs no begin time and no query. -/
def checkValidParam (queried : TelemetryRet) : Verdict :=
  if message.telemetryId = "" then .error "" "telemetryId get empty"
  else match checkTraceTags message { telemetryId := message.telemetryId } with
    | none => .error message.telemetryId "process trace tag fail"
    | some tagged =>
      match checkTracePolicy message tagged with
      | none => .error message.telemetryId "trace policy get empty"
      | some params =>
        if message.telemetryStatus = "" then .error message.telemetryId "switchStatus get empty"
        else if message.telemetryStatus = "off" then .close
        else if message.telemetryStatus ≠ "on" then .error message.telemetryId "switchStatus param get error"
        else if message.traceOpenTime < 0 then .error message.telemetryId "begin time get failed"
        else match checkTimeOut message queried { params with beginTime := message.traceOpenTime } with
          | .error errorMsg => .error message.telemetryId errorMsg
          | .ok checked => .start (setConfigs message checked)

end TelemetryListener

/-- Where a submitted task is: in its loop, before its check under the mutex, or done with or without a call
of `HandleStart`. -/
inductive TaskPhase
  | waiting
  | ready
  | ended
  | started
  deriving DecidableEq

/-- A task; `cancelled` says that telemetry was switched off before it was done. -/
structure TelemetryTask where
  params : TelemetryParams
  phase : TaskPhase
  cancelled : Bool

def TelemetryTask.isAlive (task : TelemetryTask) : Bool :=
  task.phase = .waiting || task.phase = .ready

structure TelemetryListener where
  isCanceled : Bool
  tasks : List TelemetryTask

namespace TelemetryListener

def initial : TelemetryListener := ⟨false, []⟩

variable (listener : TelemetryListener)

/-- Switching off marks the tasks that are not done. -/
def handleStop : TelemetryListener where
  isCanceled := true
  tasks := listener.tasks.map fun task => if task.isAlive then { task with cancelled := true } else task

def submit (params : TelemetryParams) : TelemetryListener where
  isCanceled := false
  tasks := listener.tasks ++ [⟨params, .waiting, false⟩]

def onUnorderedEvent (message : TelemetryMessage) (queried : TelemetryRet) :
    TelemetryListener :=
  match checkValidParam message queried with
  | .error _ _ => listener
  | .close => listener.handleStop
  | .start params => listener.submit params

/-- One round of the loop: before its time the task ends if the flag is set, and sleeps again otherwise. -/
def pollPhase (task : TelemetryTask) (now : Int64) : TaskPhase :=
  if now < task.params.beginTime then
    if listener.isCanceled then .ended else .waiting
  else .ready

/-- The check under the mutex. -/
def checkPhase : TaskPhase :=
  if listener.isCanceled then .ended else .started

inductive Step
  | message (message : TelemetryMessage) (queried : TelemetryRet)
  | poll (index : Nat) (now : Int64)
  | check (index : Nat)

/-- A task does its next step, if it is in the phase for it. -/
def advance (index : Nat) (phase : TaskPhase)
    (next : TelemetryTask → TaskPhase) : Option TelemetryListener :=
  match listener.tasks[index]? with
  | none => none
  | some task =>
    if task.phase = phase then
      some { listener with tasks := listener.tasks.set index { task with phase := next task } }
    else none

def step : Step → Option TelemetryListener
  | .message message queried => some (listener.onUnorderedEvent message queried)
  | .poll index now => listener.advance index .waiting fun task => listener.pollPhase task now
  | .check index => listener.advance index .ready fun _ => listener.checkPhase

end TelemetryListener
end Hiview.TraceManager
