import Hiview.Base.TimerWait
import Hiview.Lib.Heap

/-! The queue of the event loop as the heap that it is, and the order in which its events
are processed. Of the library's heap algorithms only what they promise is used. -/
namespace Hiview.Base.EventLoop

/-- The order of `LoopEvent::operator<`. -/
abbrev HeapAlgorithms := Heap.Algorithms fun event : LoopEvent => event.targetTime.toNat

/-- The vector of a `std::priority_queue`. -/
structure EventPriorityQueue where
  c : List LoopEvent
  heap : Heap.IsHeap (fun event : LoopEvent => event.targetTime.toNat) c

namespace EventPriorityQueue

def empty : EventPriorityQueue := ⟨[], .nil⟩

def top (queue : EventPriorityQueue) : Option LoopEvent := queue.c.head?

section
variable (algorithms : HeapAlgorithms) (queue : EventPriorityQueue)

def push (event : LoopEvent) : EventPriorityQueue :=
  ⟨algorithms.push queue.c event, algorithms.push_heap queue.heap event⟩

def pop : EventPriorityQueue := ⟨algorithms.pop queue.c, algorithms.pop_heap queue.heap⟩

def remove (seq : UInt64) : Bool × EventPriorityQueue :=
  if queue.c.any (·.seq = seq) then
    (true, ⟨algorithms.make (queue.c.eraseP (·.seq = seq)), algorithms.make_heap _⟩)
  else (false, queue)

def change : QueueChange → EventPriorityQueue
  | .push event => queue.push algorithms event
  | .remove seq => (queue.remove algorithms seq).2
  | .clear => empty

/-- The event that is taken, with the queue without it. -/
def fetchNextEvent (needQuit : Bool) (now : UInt64) : Option (LoopEvent × EventPriorityQueue) :=
  if needQuit then none
  else
    match queue.top with
    | none => none
    | some event => if event.targetTime > now then none else some (event, queue.pop algorithms)

def reInsertPeriodicEvent (now : UInt64) (event : LoopEvent) : EventPriorityQueue :=
  if event.seq = 0 then queue else queue.push algorithms { event with targetTime := now + event.interval }

def processed (round : Round) (event : LoopEvent) : EventPriorityQueue :=
  let queue := round.during.foldl (change algorithms) queue
  let event := if round.removed then { event with seq := 0 } else event
  let queue :=
    if event.isRepeat && decide (0 < event.interval) then queue.reInsertPeriodicEvent algorithms round.later event
    else queue
  round.after.foldl (change algorithms) queue

end

/-- An event that is processed, with the clock and the queue at which it was taken. -/
structure Processed where
  event : LoopEvent
  now : UInt64
  queue : List LoopEvent

def processQueuedEvent (algorithms : HeapAlgorithms) : List Round → EventPriorityQueue → List Processed
  | [], _ => []
  | round :: rest, queue =>
    if queue.c.isEmpty then []
    else
      let queue := round.before.foldl (change algorithms) queue
      match queue.fetchNextEvent algorithms round.needQuit round.now with
      | none => []
      | some (event, left) =>
        ⟨event, round.now, queue.c⟩ :: processQueuedEvent algorithms rest (left.processed algorithms round event)

variable {algorithms : HeapAlgorithms} {queue : EventPriorityQueue} {event : LoopEvent}

theorem top_le (isTop : queue.top = some event) (member : other ∈ queue.c) :
    event.targetTime ≤ other.targetTime := by
  obtain ⟨rest, split⟩ := List.head?_eq_some_iff.mp isTop
  have heap := queue.heap
  rw [split] at heap member
  exact UInt64.le_iff_toNat_le.mpr (heap.front_le member)

theorem fetchNextEvent_inv (fetched : queue.fetchNextEvent algorithms needQuit now = some (event, left)) :
    queue.top = some event ∧ event.targetTime ≤ now ∧ left = queue.pop algorithms := by
  revert fetched
  fun_cases queue.fetchNextEvent algorithms needQuit now with
  | case4 _ first isTop due =>
    rintro ⟨⟩
    exact ⟨isTop, UInt64.not_lt.mp due, rfl⟩
  | _ => nofun

/-- The event was in the queue, was due, and none was due before it. -/
structure Processed.InOrder (processed : Processed) : Prop where
  queued : processed.event ∈ processed.queue
  due : processed.event.targetTime ≤ processed.now
  first : ∀ other ∈ processed.queue, processed.event.targetTime ≤ other.targetTime

theorem processed_inOrder {processed : Processed} (reached : processed ∈ processQueuedEvent algorithms rounds queue) :
    processed.InOrder := by
  fun_induction processQueuedEvent algorithms rounds queue with
  | case4 round rest queue _ seen event left fetched ih =>
    obtain ⟨isTop, due, -⟩ := fetchNextEvent_inv fetched
    rcases List.mem_cons.mp reached with rfl | later
    · exact ⟨List.mem_of_head? isTop, due, fun other member => top_le isTop member⟩
    · exact ih later
  | _ => cases reached

end EventPriorityQueue

theorem toNat_targetTime (now interval : UInt64) : (now + interval * secToNanosec).toNat =
    (now.toNat + interval.toNat * 1000000000 % 18446744073709551616) % 18446744073709551616 := by
  rw [UInt64.toNat_add, UInt64.toNat_mul]
  rfl

/-- Whatever the heap algorithms, the clock and the changes of the queue: the target time
is exact under the condition on the interval, and events are taken when they are due and
in the order of their target times. -/
theorem timers_due_in_order (algorithms : HeapAlgorithms) :
    (∀ now interval repeats,
        (∀ event, addTimerEvent now interval repeats = some event →
          event.targetTime.toNat = now.toNat + interval.toNat * 1000000000) ↔
        interval.toNat * 1000000000 < 18446744073709551616 ∨
          18446744073709551616 ≤ now.toNat + interval.toNat * 1000000000 % 18446744073709551616) ∧
      ∀ rounds queue, ∀ processed ∈ EventPriorityQueue.processQueuedEvent algorithms rounds queue,
        processed.event ∈ processed.queue ∧ processed.event.targetTime ≤ processed.now ∧
          ∀ other ∈ processed.queue, processed.event.targetTime ≤ other.targetTime := by
  refine ⟨fun now interval repeats => ?_, fun rounds queue processed reached => ?_⟩
  · have sum := toNat_targetTime now interval
    unfold addTimerEvent
    by_cases wraps : now + interval * secToNanosec < now
    · rw [if_pos wraps]
      have later := UInt64.lt_iff_toNat_lt.mp wraps
      refine iff_of_true (fun event added => ?_) (.inr ?_)
      · cases added
      · omega
    · rw [if_neg wraps]
      have notLater := mt UInt64.lt_iff_toNat_lt.mpr wraps
      constructor
      · intro always
        have target := always _ rfl
        rw [sum] at target
        omega
      · intro fits event added
        obtain rfl := Option.some_inj.mp added
        rw [sum]
        omega
  · have inOrder := EventPriorityQueue.processed_inOrder reached
    exact ⟨inOrder.queued, inOrder.due, inOrder.first⟩

/-- A timer of more than 584 years is due after a third of a second. -/
theorem addTimerEvent_wrapped :
    (addTimerEvent 0 18446744074 false).map (·.targetTime.toNat) = some 290448384 ∧
      ¬ ∀ event, addTimerEvent 0 18446744074 false = some event →
        event.targetTime.toNat = (0 : UInt64).toNat + (18446744074 : UInt64).toNat * 1000000000 := by
  have wrapped : addTimerEvent 0 18446744074 false =
      some { seq := 0, interval := 290448384, targetTime := 290448384 } := by decide +kernel
  refine ⟨rfl, fun always => ?_⟩
  exact absurd (always _ wrapped) (by decide +kernel)

end Hiview.Base.EventLoop
