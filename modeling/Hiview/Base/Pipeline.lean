import Hiview.Lib.TaskPool
import Hiview.Lib.Transition

/-! The delivery of an event along a pipeline. Calls that end a function are tasks of a
pool, as are the events added to a work loop and the continuations that come from other
threads; any task may run next. -/
namespace Hiview.Base

/-- What a plugin of the pipeline does with the event: it does not exist any more, is not
interested, or its `OnEvent` returns, pends and has the event continued later, or finishes. -/
inductive PluginBehaviour where
  | expired
  | uninterested
  | returns
  | pends
  | finishes
  deriving DecidableEq

structure PipelinePlugin where
  name : String
  behaviour : PluginBehaviour
  deriving DecidableEq

inductive PipelineTask where
  /-- a call of `OnContinue` -/
  | resume
  /-- `OnEventProxy` of a plugin -/
  | proxy (plugin : PipelinePlugin)
  /-- the end of `OnEventProxy`, with the number of processors at its start -/
  | check (processorSize : Nat)
  deriving DecidableEq

/-- The event with the tasks of its delivery, the plugins that handled it, the calls of
`OnFinish`, and whether `front` was taken from an empty list. -/
structure PipelineEvent where
  processors : List PipelinePlugin
  startDeliver : Bool := false
  hasPending : Bool := false
  hasFinish : Bool := false
  tasks : List PipelineTask := []
  handled : List PipelinePlugin := []
  finished : Nat := 0
  emptyFront : Bool := false
  deriving DecidableEq

namespace PipelineEvent
variable (event : PipelineEvent)

def onPending : PipelineEvent := { event with hasPending := true }

def onFinish : PipelineEvent := { event with hasFinish := true, finished := event.finished + 1 }

def add (task : PipelineTask) : PipelineEvent := { event with tasks := event.tasks ++ [task] }

/-- `OnContinue` with these processors left. -/
def continueWith (event : PipelineEvent) : List PipelinePlugin → PipelineEvent
  | [] =>
    if !event.hasFinish then onFinish { event with processors := [] }
    else { event with processors := [], startDeliver := true, emptyFront := true }
  | plugin :: rest =>
    let event := { event with processors := rest, startDeliver := true }
    match plugin.behaviour with
    | .expired => continueWith event rest
    | .uninterested => if !event.hasFinish && !event.hasPending then continueWith event rest else event
    | .returns | .pends | .finishes => event.add (.proxy plugin)

def onContinue : PipelineEvent := event.continueWith event.processors

/-- `OnEventProxy` up to the return of `OnEvent`. -/
def onEventProxy (plugin : PipelinePlugin) : PipelineEvent :=
  let processorSize := event.processors.length
  let event := { event with hasPending := false, handled := event.handled ++ [plugin] }
  match plugin.behaviour with
  | .pends => (event.onPending.add .resume).add (.check processorSize)
  | .finishes => event.onFinish.add (.check processorSize)
  | .expired | .uninterested | .returns => event.add (.check processorSize)

def checkContinue (processorSize : Nat) : PipelineEvent :=
  if (!event.hasFinish && !event.hasPending) && processorSize = event.processors.length then event.onContinue
  else event

def perform : PipelineTask → PipelineEvent
  | .resume => event.onContinue
  | .proxy plugin => event.onEventProxy plugin
  | .check processorSize => event.checkContinue processorSize

/-- The task at a place of the pool runs. -/
def step (index : Nat) : Option PipelineEvent :=
  (TaskPool.pick event.tasks index).map fun (task, left) => perform { event with tasks := left } task

end PipelineEvent

/-- `Pipeline::ProcessEvent`: the framework calls `OnContinue`. -/
def processEvent (processors : List PipelinePlugin) : PipelineEvent :=
  { processors := processors, tasks := [.resume] }
end Hiview.Base
