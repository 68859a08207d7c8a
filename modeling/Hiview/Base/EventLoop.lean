import Mathlib.Data.List.MinMax

/-! The event loop: due events are taken from the queue one by one, and the time to the
next one goes through nanoseconds and milliseconds to the `int` of `epoll_wait`. The
queue also changes between the locks, by callbacks and by other threads. -/
namespace Hiview.Base.EventLoop

structure LoopEvent where
  seq : UInt64
  isRepeat : Bool := false
  /-- nanoseconds, like the target time -/
  interval : UInt64 := 0
  targetTime : UInt64
  deriving DecidableEq

/-- The event with the smallest target time is at the top. -/
def top (queue : List LoopEvent) : Option LoopEvent :=
  queue.argmin fun event => event.targetTime.toNat

inductive QueueChange where
  | push (event : LoopEvent)
  | remove (seq : UInt64)
  | clear

def change (queue : List LoopEvent) : QueueChange → List LoopEvent
  | .push event => event :: queue
  | .remove seq => queue.eraseP fun event => event.seq = seq
  | .clear => []

def intMax : UInt64 := 2147483647
def millisecToNanosec : UInt64 := 1000000
def secToNanosec : UInt64 := 1000000000

/-- The event that `AddTimerEvent` puts into the queue. -/
def addTimerEvent (now interval : UInt64) (repeats : Bool) : Option LoopEvent :=
  let intervalMicro := interval * secToNanosec
  if now + intervalMicro < now then none
  else some { seq := now, isRepeat := repeats, interval := intervalMicro, targetTime := now + intervalMicro }

inductive Fetched where
  | nothing (leftTimeNanosecond : UInt64)
  | event (event : LoopEvent) (rest : List LoopEvent)

def fetchNextEvent (needQuit : Bool) (now leftTimeNanosecond : UInt64) (queue : List LoopEvent) : Fetched :=
  if needQuit then .nothing leftTimeNanosecond
  else
    match top queue with
    | none => .nothing leftTimeNanosecond
    | some event =>
      if now < event.targetTime then .nothing (event.targetTime - now) else .event event (queue.erase event)

def reInsertPeriodicEvent (now : UInt64) (event : LoopEvent) (queue : List LoopEvent) : List LoopEvent :=
  if event.seq = 0 then queue else { event with targetTime := now + event.interval } :: queue

/-- One round of `ProcessQueuedEvent` as the loop finds it. -/
structure Round where
  /-- after the look whether the queue is empty -/
  before : List QueueChange := []
  needQuit : Bool := false
  now : UInt64
  /-- while the event is processed -/
  during : List QueueChange := []
  /-- the event was removed meanwhile, which clears its `seq` -/
  removed : Bool := false
  /-- the clock after the event -/
  later : UInt64 := 0
  after : List QueueChange := []

/-- What the loop saw of its queue last; an empty queue is left without asking the clock. -/
structure Look where
  queue : List LoopEvent
  now : Option UInt64
  needQuit : Bool
  deriving DecidableEq

structure Wait where
  leftTimeNanosecond : UInt64
  look : Look
  deriving DecidableEq

def Round.processed (round : Round) (event : LoopEvent) (rest : List LoopEvent) : List LoopEvent :=
  let queue := round.during.foldl change rest
  let event := if round.removed then { event with seq := 0 } else event
  let queue :=
    if event.isRepeat && decide (0 < event.interval) then reInsertPeriodicEvent round.later event queue else queue
  round.after.foldl change queue

def processQueuedEvent : List Round → List LoopEvent → Option Wait
  | rounds, queue =>
    if queue = [] then some ⟨intMax, ⟨[], none, false⟩⟩
    else
      match rounds with
      | [] => none
      | round :: rest =>
        let queue := round.before.foldl change queue
        match fetchNextEvent round.needQuit round.now 0 queue with
        | .nothing leftTimeNanosecond => some ⟨leftTimeNanosecond, ⟨queue, some round.now, round.needQuit⟩⟩
        | .event event left => processQueuedEvent rest (round.processed event left)

def leftTimeMill (leftTimeNanosecond : UInt64) : UInt64 :=
  if leftTimeNanosecond ≠ intMax then leftTimeNanosecond / millisecToNanosec else intMax

/-- The conversion from `uint64_t` to the `int` parameter of `epoll_wait`. -/
def toInt (value : UInt64) : Int :=
  (value.toNat : Int).bmod 4294967296

def Wait.timeout (wait : Wait) : Int :=
  toInt (leftTimeMill wait.leftTimeNanosecond)

/-- One turn of `Run`, with what happens to the queue while it waits. -/
structure Turn where
  rounds : List Round
  waiting : List QueueChange := []
  needQuit : Bool := false

def run : List Turn → List LoopEvent → List Wait
  | [], _ => []
  | turn :: rest, queue =>
    match processQueuedEvent turn.rounds queue with
    | none => []
    | some wait => wait :: if turn.needQuit then [] else run rest (turn.waiting.foldl change wait.look.queue)

end Hiview.Base.EventLoop
