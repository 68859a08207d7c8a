import Hiview.Lib.Assoc
import Hiview.Lib.TaskPool
import Hiview.Lib.Transition

/-! The event logger: an event it wants a log for is pended, passes the rate limit and the
collection of its log as tasks on a queue, and is continued by a timer. -/
namespace Hiview.EventLogger

/-- The event after `GetEventPid`. -/
structure SysEvent where
  eventName : String
  eventId : Nat := 0
  /-- milliseconds -/
  happenTime : Nat := 0
  uid : Int := 0
  pid : Int := 0
  /-- the parameter `PID`, zero when there is none -/
  pidValue : Int := 0
  /-- `eventLog_interval` -/
  interval : Int := 0
  /-- `eventLog_action` -/
  action : String := ""
  deriving DecidableEq

/-- What the build and the time zone decide. -/
structure Platform where
  windowManager : Bool
  timestampFormatToDate : Nat → String

/-! ### Rate limit -/

structure RateLimit where
  uidPidCountMap : List (String × Int × List Int) := []
  eventTagTime : List (String × Int) := []
  deriving DecidableEq

def maxDistinctPidPerUid : Nat := 5
def minAppUid : Int := 10000
def defaultAppWriterInterval : Int := 1

def checkDistinctPidLimit (map : List (String × Int × List Int)) (eventName : String) (pid uid interval now : Int) :
    Bool × List (String × Int × List Int) :=
  let uidTag := eventName ++ "-uid" ++ toString uid
  let live := map.filter fun entry => now - entry.2.1 < interval
  match Assoc.lookup live uidTag with
  | some (since, pids) =>
    let pids := pids.insert pid
    (pids.length ≤ maxDistinctPidPerUid,
      live.map fun entry => if entry.1 = uidTag then (uidTag, since, pids) else entry)
  | none => (true, (uidTag, now, [pid]) :: live)

/-- Whether `find` has a place for the part. -/
def containsText (text part : String) : Bool :=
  text.toList.tails.any part.toList.isPrefixOf

def checkEventInterval (map : List (String × Int)) (eventName eventPid : String) (interval now : Int) :
    Bool × List (String × Int) :=
  let live := map.filter fun entry => !(containsText entry.1 eventName && decide (interval ≤ now - entry.2))
  let tagTimeName := eventName ++ eventPid
  let others := live.filter fun entry => entry.1 ≠ tagTimeName
  match Assoc.lookup live tagTimeName with
  | some since => if now - since < interval then (false, live) else (true, (tagTimeName, now) :: others)
  | none => (true, (tagTimeName, now) :: others)

/-- The two checks read the clock one after the other. -/
def judgmentRateLimiting (limit : RateLimit) (event : SysEvent) (uidNow tagNow : Int) : Bool × RateLimit :=
  if event.interval ≤ 0 ∧ event.uid < minAppUid then (true, limit)
  else
    let interval := if event.interval ≤ 0 then defaultAppWriterInterval else event.interval
    let pid :=
      if event.uid < minAppUid then (if event.pidValue ≠ 0 then event.pidValue else event.pid) else event.pid
    let (distinct, uidPidCountMap) :=
      checkDistinctPidLimit limit.uidPidCountMap event.eventName pid event.uid interval uidNow
    if !distinct then (false, { limit with uidPidCountMap := uidPidCountMap })
    else
      let (enough, eventTagTime) := checkEventInterval limit.eventTagTime event.eventName (toString pid) interval tagNow
      (enough, ⟨uidPidCountMap, eventTagTime⟩)

/-! ### Tasks -/

/-- The queue runs several tasks at a time, so that the collection of a log counts as a
hop of its own after the rate limit. -/
inductive Hop where
  | judge
  | ffrtDump
  | collect
  | checkEventOnContinue
  deriving DecidableEq

structure Task where
  id : Nat
  hop : Hop
  event : SysEvent
  deriving DecidableEq

structure World where
  uidNow : Int := 0
  tagNow : Int := 0
  hasWindows : Bool := false
  /-- a new log file can be opened -/
  created : Bool := true

/-- The answers of the checks of `OnEvent`. -/
structure Checks where
  validateEvent : Bool := true
  isDumpTargetPermitted : Bool := true
  checkContinueReport : Bool := true
  checkFfrtEvent : Bool := true
  isHandleAppfreeze : Bool := true
  checkProcessRepeatFreeze : Bool := false
  checkScreenOnRepeat : Bool := false

/-- The events have numbers in the order of their arrival. -/
structure State where
  limit : RateLimit := {}
  /-- the log files that exist -/
  files : List String := []
  tasks : List Task := []
  pended : List Nat := []
  continued : List Nat := []
  finished : List Nat := []
  /-- what `UpdateDB` has noted -/
  info : List (Nat × String) := []
  next : Nat := 0

inductive Step where
  | onEvent (event : Option SysEvent) (checks : Checks)
  | runTask (index : Nat) (world : World)
  | fileAppears (name : String)
  | fileRemoved (name : String)

/-- The text that `UpdateDB` stores for a log file. -/
def logPath (logFile : String) : String :=
  if logFile = "nolog" then "nolog" else "logPath:/data/log/eventlog/" ++ logFile

variable (platform : Platform)

/-- The parameter `PID` is cut to 32 bits here. -/
def fileName (event : SysEvent) (isFfrt : Bool) : String :=
  let formatTime := platform.timestampFormatToDate (event.happenTime / 1000)
  let pidValue := event.pidValue.bmod 4294967296
  let pid := if pidValue ≠ 0 then pidValue else event.pid
  if isFfrt then "ffrt_" ++ toString pid ++ "_" ++ formatTime
  else
    let idStr := if event.eventName = "" then toString event.eventId else event.eventName
    idStr ++ "-" ++ toString pid ++ "-" ++ formatTime ++ ".log"

variable (state : State)

/-- Whether there is a descriptor, and the state after. A file that exists is noted but not opened. -/
def getFile (task : Task) (isFfrt created : Bool) : Bool × State :=
  let logFile := fileName platform task.event isFfrt
  if logFile ∈ state.files then
    (false, if isFfrt then state else { state with info := state.info ++ [(task.id, logPath logFile)] })
  else if created then (true, { state with files := logFile :: state.files })
  else (false, state)

def startFfrtDump (task : Task) (world : World) : State :=
  if world.hasWindows then (getFile platform state task true world.created).2 else state

def startLogCollect (task : Task) (world : World) : State :=
  let (opened, state) := getFile platform state task false world.created
  if opened then
    { state with
      info := state.info ++ [(task.id, logPath (fileName platform task.event false))]
      tasks := state.tasks ++ [{ task with hop := .checkEventOnContinue }] }
  else state

def judge (task : Task) (world : World) : State :=
  let (passed, limit) := judgmentRateLimiting state.limit task.event world.uidNow world.tagNow
  let state := { state with limit := limit }
  if passed then
    let dump := platform.windowManager ∧
      (task.event.eventName = "GET_DISPLAY_SNAPSHOT" ∨ task.event.eventName = "CREATE_VIRTUAL_SCREEN")
    { state with
      tasks := state.tasks ++ (if dump then [{ task with hop := .ffrtDump }] else []) ++ [{ task with hop := .collect }] }
  else state

def runTask (task : Task) (world : World) : State :=
  match task.hop with
  | .judge => judge platform state task world
  | .ffrtDump => startFfrtDump platform state task world
  | .collect => startLogCollect platform state task world
  | .checkEventOnContinue => { state with continued := state.continued ++ [task.id] }

def onEvent (event : SysEvent) (checks : Checks) : State :=
  let id := state.next
  let state := { state with next := state.next + 1 }
  if !checks.validateEvent then { state with finished := state.finished ++ [id] }
  else if !checks.isDumpTargetPermitted then { state with finished := state.finished ++ [id] }
  else if !checks.checkContinueReport || !checks.checkFfrtEvent || !checks.isHandleAppfreeze ||
      checks.checkProcessRepeatFreeze || checks.checkScreenOnRepeat then state
  else if event.action = "" then { state with info := state.info ++ [(id, logPath "nolog")] }
  else { state with pended := state.pended ++ [id], tasks := state.tasks ++ [⟨id, .judge, event⟩] }

def step : Step → Option State
  | .onEvent none _ => some state
  | .onEvent (some event) checks => some (onEvent state event checks)
  | .runTask index world =>
    (TaskPool.pick state.tasks index).map fun (task, left) => runTask platform { state with tasks := left } task world
  | .fileAppears name => some { state with files := name :: state.files }
  | .fileRemoved name => some { state with files := state.files.filter fun file => file ≠ name }

def start (limit : RateLimit) (files : List String) : State :=
  { limit := limit, files := files }

end Hiview.EventLogger
