import Hiview.EventExport.EventExportTask
import Hiview.Lib.Transition

/-! `TriggerExportEngine` for one module whose switch is on, after the start delay.
Every event handed to `ProcessEvent` is appended by a task of its own, in any
order; the export tasks run one after the other on a serial queue, and each reads
its range and its event list at different moments. Exports succeed. -/
namespace Hiview.EventExport
open ExportDbManager EventExportTask

structure TriggerExportEvent where
  domain : List UInt8
  eventName : List UInt8
  timeStamp : Int
  seq : Int
  deriving DecidableEq

abbrev ExportEventList := List (List UInt8 × List (List UInt8))

def ExportEventList.Has (list : ExportEventList) (event : TriggerExportEvent) : Prop :=
  ∃ item ∈ list, item.1 = event.domain ∧ event.eventName ∈ item.2

structure TriggerExportTask where
  id : Nat
  allEvent : List TriggerExportEvent
  deriving DecidableEq

namespace TriggerExportTask

def appendEvent (task : TriggerExportTask) (event : TriggerExportEvent) : TriggerExportTask :=
  { task with allEvent := task.allEvent ++ [event] }

def getTimeStamp (task : TriggerExportTask) : Int :=
  task.allEvent.head?.elim 0 TriggerExportEvent.timeStamp

/-- One round of the loop in `ParseExportEventList`. -/
def listEvent (event : TriggerExportEvent) : ExportEventList → ExportEventList
  | [] => [(event.domain, [event.eventName])]
  | (domain, eventNames) :: rest =>
    if domain = event.domain then
      if eventNames.contains event.eventName then (domain, eventNames) :: rest
      else (domain, eventNames ++ [event.eventName]) :: rest
    else if event.domain < domain then
      (event.domain, [event.eventName]) :: (domain, eventNames) :: rest
    else (domain, eventNames) :: listEvent event rest

/-- A task without events takes the list of the configuration. -/
def parseExportEventList (configured : ExportEventList) (task : TriggerExportTask) :
    ExportEventList :=
  if task.allEvent = [] then configured
  else task.allEvent.foldl (fun list event => listEvent event list) []

def getExportRangeEndSeq (curSeq : Int) (task : TriggerExportTask) : Int :=
  task.allEvent.getLast?.elim curSeq fun lastEvent => lastEvent.seq + 1

end TriggerExportTask

inductive TaskPhase where
  | started
  | ranged (range : Int × Int)
  | finished
  deriving DecidableEq

structure ExportRun where
  range : Int × Int
  eventList : ExportEventList
  deriving DecidableEq

def ExportRun.Covers (run : ExportRun) (event : TriggerExportEvent) : Prop :=
  (run.range.1 ≤ event.seq ∧ event.seq < run.range.2) ∧ run.eventList.Has event

/-- The configuration of the module: the trigger cycle in milliseconds and the
events it exports. -/
structure TriggerConfig where
  taskTriggerCycle : Int
  configured : ExportEventList

/-- Tasks of one list have different ids, so that a submitted task is known by its
id. The events that were appended are kept with the number of runs before. -/
structure TriggerExportEngine where
  taskList : List TriggerExportTask
  queue : List Nat
  running : Option (Nat × TaskPhase)
  record : Option ExportDetailRecord
  curSeq : Int
  handed : List TriggerExportEvent
  submitted : List TriggerExportEvent
  appended : List (TriggerExportEvent × Nat)
  runs : List ExportRun
  deriving DecidableEq

inductive TriggerLabel where
  | store
  | processEvent (event : TriggerExportEvent)
  | append (event : TriggerExportEvent)
  | start
  | readRange
  | readList
  | removeTask
  deriving DecidableEq

namespace TriggerExportEngine

def firstTaskId : Nat := 1

/-- The state when the delay is cancelled; the task built at the start has no
events. -/
def initial (record : ExportDetailRecord) (curSeq : Int) (built : Bool) : TriggerExportEngine :=
  ⟨if built then [⟨firstTaskId, []⟩] else [], if built then [firstTaskId] else [], none,
    some record, curSeq, [], [], [], []⟩

def calculateTimeDuration (ts1 ts2 : Int) : Int := if ts1 > ts2 then ts1 - ts2 else ts2 - ts1

variable (config : TriggerConfig)

/-- The event goes to the last task and not to a new one. -/
def joins (lastTask : TriggerExportTask) (event : TriggerExportEvent) : Bool :=
  calculateTimeDuration lastTask.getTimeStamp event.timeStamp ≤ config.taskTriggerCycle

/-- `RebuildExistTaskList`, and `BuildNewTaskList` where the list is empty: the
list, and the task that is started. -/
def rebuildExistTaskList (taskList : List TriggerExportTask)
    (event : TriggerExportEvent) : List TriggerExportTask × List Nat :=
  match taskList.getLast? with
  | none => ([⟨firstTaskId, [event]⟩], [firstTaskId])
  | some lastTask =>
    if joins config lastTask event then (taskList.dropLast ++ [lastTask.appendEvent event], [])
    else (taskList ++ [⟨lastTask.id + 1, [event]⟩], [lastTask.id + 1])

variable (state : TriggerExportEngine)

/-- The task that `ProcessEvent` submits for an event. -/
def processTriggerEvent
    (event : TriggerExportEvent) : TriggerExportEngine :=
  let rebuilt := rebuildExistTaskList config state.taskList event
  { state with
    taskList := rebuilt.1, queue := state.queue ++ rebuilt.2
    submitted := state.submitted.erase event
    appended := (event, state.runs.length) :: state.appended }

def findTask (id : Nat) : Option TriggerExportTask :=
  state.taskList.find? fun task => task.id = id

def removeTask (id : Nat) (taskList : List TriggerExportTask) : List TriggerExportTask :=
  taskList.eraseP fun task => task.id = id

def step :
    TriggerLabel → Option TriggerExportEngine
  | .store => some { state with curSeq := state.curSeq + 1 }
  | .processEvent event =>
    some { state with handed := event :: state.handed, submitted := event :: state.submitted }
  | .append event =>
    if event ∈ state.submitted then some (processTriggerEvent config state event) else none
  | .start =>
    match state.running, state.queue with
    | none, id :: rest => some { state with running := some (id, .started), queue := rest }
    | _, _ => none
  | .readRange =>
    match state.running with
    | some (id, .started) =>
      (state.findTask id).map fun task =>
        let range := initReadRequest state.record (task.getExportRangeEndSeq state.curSeq)
        { state with running := some (id, range.elim .finished .ranged) }
    | _ => none
  | .readList =>
    match state.running with
    | some (id, .ranged range) =>
      (state.findTask id).map fun task =>
        let eventList := task.parseExportEventList config.configured
        if eventList = [] then { state with running := some (id, .finished) }
        else { state with
          running := some (id, .finished)
          record := handleExportTaskFinished state.record range.2
          runs := state.runs ++ [⟨range, eventList⟩] }
    | _ => none
  | .removeTask =>
    match state.running with
    | some (id, .finished) =>
      some { state with running := none, taskList := removeTask id state.taskList }
    | _ => none

def Settled : Prop :=
  state.submitted = [] ∧ state.queue = [] ∧ state.running = none

/-- Every event handed over lies in the range and the list of a run that came after
it was appended. -/
def Complete : Prop :=
  ∀ event ∈ state.handed, ∃ before, (event, before) ∈ state.appended ∧
    ∃ run ∈ state.runs.drop before, run.Covers event

end TriggerExportEngine
end Hiview.EventExport
