import Hiview.FreezeDetector.EventFieldValidator

/-! The watch point that the freeze detector builds of an event it has validated. -/
namespace Hiview.FreezeDetector
open EventRaw Base
open Numeral (ascii)

/-- The sequence and the time of an event, which nothing else here depends on. -/
structure Occurrence where
  seq : Int64
  happenTime : UInt64

structure WatchPointParams where
  seq : Int64
  pid : Int64
  tid : Int64
  uid : Int64
  sysuid : Int64
  renderPid : Int64
  renderUid : Int64
  processLifetime : Int64
  appRunningUniqueId : List UInt8
  packageName : List UInt8
  processName : List UInt8
  hitraceTime : List UInt8
  sysrqTime : List UInt8
  terminalThreadStack : List UInt8
  telemetryId : List UInt8
  info : List UInt8
  hitraceIdInfo : List UInt8
  procStatm : List UInt8
  hostResourceWarning : List UInt8
  freezeExtFile : List UInt8
  applicationInfo : List UInt8
  applicationGCInfo : List UInt8
  applicationIOInfo : List UInt8
  taskName : List UInt8
  clusterRaw : List UInt8
  timeoutEventId : List UInt8
  lastDispatchEventId : List UInt8
  lastProcessEventId : List UInt8
  lastMarkedEventId : List UInt8
  thermalLevel : List UInt8
  logFile : List UInt8
  foreGround : List UInt8
  msg : List UInt8
  externalLog : List UInt8
  enableMainThreadSample : Bool
  isHicollie : Bool
  reportLifecycleToFreeze : Bool
  isBlockInGC : Bool

/-- The builder takes every parameter but `info` over as it is. -/
structure WatchPoint where
  params : WatchPointParams
  domain : List UInt8
  stringId : List UInt8
  timestamp : UInt64

deriving instance Inhabited for WatchPointParams, WatchPoint

/-- What stands behind the first place of a part in a text. -/
def behind (part : List UInt8) : List UInt8 → Option (List UInt8)
  | [] => if part = [] then some [] else none
  | char :: rest =>
    if part.isPrefixOf (char :: rest) then some ((char :: rest).drop part.length) else behind part rest

def searchLogFile (info : List UInt8) : List UInt8 :=
  match behind (ascii "logPath:") info with
  | none => info
  | some rest =>
    let logFile := rest.takeWhile (· ≠ 44)
    if logFile = [] then info else logFile

/-- A number of the event, or the sender's when it is zero. -/
def numberOr (event : Event) (field : List UInt8) (sender : Int32) : Int64 :=
  if event.getEventIntValue field ≠ 0 then event.getEventIntValue field else sender.toInt64

def extractWatchPointParams (occurrence : Occurrence) (members : Members) (event : Event) : WatchPointParams :=
  let text (field : String) := event.getEventValue (ascii field)
  let number (field : String) := event.getEventIntValue (ascii field)
  { seq := occurrence.seq
    pid := numberOr event (ascii "PID") members.pid
    tid := number "TID"
    uid := numberOr event (ascii "UID") members.uid
    sysuid := number "uid_"
    renderPid := number "pid_"
    renderUid := number "uid_"
    processLifetime := number "PROCESS_LIFETIME"
    appRunningUniqueId := text "APP_RUNNING_UNIQUE_ID"
    packageName := text "PACKAGE_NAME"
    processName := text "PROCESS_NAME"
    hitraceTime := text "HITRACE_TIME"
    sysrqTime := text "SYSRQ_TIME"
    terminalThreadStack := text "TERMINAL_THREAD_STACK"
    telemetryId := text "TELEMETRY_ID"
    info := text "info_"
    hitraceIdInfo := text "HITRACE_ID"
    procStatm := text "PROC_STATM"
    hostResourceWarning := text "HOST_RESOURCE_WARNING"
    freezeExtFile := text "FREEZE_INFO_PATH"
    applicationInfo := text "APPLICATION_HEAP_INFO" ++ ascii "," ++ text "PROCESS_LIFECYCLE_INFO"
    applicationGCInfo := text "APPLICATION_GC_INFO"
    applicationIOInfo := text "APPLICATION_IO_INFO"
    taskName := text "TASK_NAME"
    clusterRaw := text "QNAME" ++ Numeral.toString (number "QOS").toInt
    timeoutEventId := Numeral.toString (number "INPUT_ID").toInt
    lastDispatchEventId := text "LAST_DISPATCH_EVENTID"
    lastProcessEventId := text "LAST_PROCESS_EVENTID"
    lastMarkedEventId := text "LAST_MARKED_EVENTID"
    thermalLevel := text "THERMAL_LEVEL"
    logFile := searchLogFile (text "info_")
    foreGround := if number "FOREGROUND" ≠ 0 then ascii "Yes" else ascii "No"
    msg := text "MSG"
    externalLog := text "EXTERNAL_LOG"
    enableMainThreadSample := number "ENABLE_MAINTHREAD_SAMPLE" ≠ 0
    isHicollie := (number "IS_HICOLLIE").toInt32 = 1
    reportLifecycleToFreeze := number "report_lifecycle_as_appfreeze" ≠ 0
    isBlockInGC := number "IS_BLOCK_IN_GC" ≠ 0 }

namespace FreezeDetectorPlugin

/-- The watch point and the event, whose builder is made for it if need be. -/
def makeWatchPoint (occurrence : Occurrence) (sysEvent : SysEvent) : Option (WatchPoint × SysEvent) := do
  let (builder, sysEvent) ← sysEvent.initBuilder
  let members := sysEvent.members
  let params := extractWatchPointParams occurrence members builder.event
  return (⟨params, members.domain, members.eventName, occurrence.happenTime⟩, sysEvent)

end FreezeDetectorPlugin

namespace WatchPoint

/-- The result of `compare` is taken for a truth value. -/
def less (point node : WatchPoint) : Bool :=
  if point.timestamp = node.timestamp then point.stringId ≠ node.stringId
  else point.timestamp < node.timestamp

def equals (point node : WatchPoint) : Bool :=
  point.timestamp = node.timestamp && point.stringId ≠ node.stringId

theorem less_iff {point node : WatchPoint}
    (apart : point.timestamp = node.timestamp → point.stringId = node.stringId) :
    point.less node = true ↔ point.timestamp.toNat < node.timestamp.toNat := by
  rw [less, ← UInt64.lt_iff_toNat_lt]
  split
  · case isTrue same => simp [apart same, same]
  · exact decide_eq_true_iff

/-- A set of watch points is ordered exactly if their times tell its points apart, and two compare as equal
if and only if neither is less exactly when their times differ. -/
theorem isStrictWeakOrder_less (points : Set WatchPoint) (point node : WatchPoint) :
    (IsStrictWeakOrder points (fun point node => point.1.less node.1 = true) ↔
      ∀ point ∈ points, ∀ node ∈ points, point.timestamp = node.timestamp → point.stringId = node.stringId) ∧
    ((point.equals node = true ↔ ¬ point.less node = true ∧ ¬ node.less point = true) ↔
      point.timestamp ≠ node.timestamp) := by
  refine ⟨⟨fun ordered point here node there same => ?_, fun apart => ?_⟩, ?_⟩
  · by_contra other
    have before : point.less node = true := by simp [less, same, other]
    have behind : node.less point = true := by simp [less, same, Ne.symm other]
    have twice := ordered.trans ⟨point, here⟩ ⟨node, there⟩ ⟨point, here⟩ before behind
    exact ordered.irrefl ⟨point, here⟩ twice
  · have ordered (point node : points) := less_iff (apart _ point.2 _ node.2)
    refine @IsStrictWeakOrder.mk _ _ (@IsStrictOrder.mk _ _ ⟨fun point => ?_⟩ ⟨fun first second third => ?_⟩)
      fun first second third => ?_
    all_goals
      simp only [ordered]
      omega
  · by_cases same : point.timestamp = node.timestamp
    · by_cases other : point.stringId = node.stringId <;> simp [equals, less, same, other]
    · have first := less_iff (fun equal => absurd equal same)
      have second := less_iff (fun equal => absurd equal.symm same)
      have times : point.timestamp.toNat ≠ node.timestamp.toNat := fun equal => same (UInt64.toNat.inj equal)
      rw [first, second, equals, decide_eq_false same]
      simp only [Bool.false_and, Bool.false_eq_true, false_iff, ne_eq, same, not_false_eq_true, iff_true]
      omega

/-- Two watch points of one time are less than each other, and none is equal to itself. -/
theorem less_twins :
    let twin : WatchPoint := { (default : WatchPoint) with stringId := ascii "SCREEN_ON" }
    (default : WatchPoint).less twin = true ∧ twin.less default = true ∧ twin.equals twin = false := by
  decide +kernel

end WatchPoint

end Hiview.FreezeDetector
