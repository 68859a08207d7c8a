import Hiview.TraceManager.TelemetryListener

/-! Cancelled telemetry tasks. Switching telemetry off sets a flag for the tasks that are not done; the
next message that switches it on takes the flag back, also for those of them that have not looked
at it yet. -/
namespace Hiview.TraceManager.TelemetryListener
open Transition List
variable {listener next : TelemetryListener} {task : TelemetryTask}

section
variable (listener : TelemetryListener)

/-- No task has called `HandleStart` after telemetry was switched off. -/
def NoneStarted : Prop :=
  ∀ task ∈ listener.tasks, task.phase = .started → task.cancelled = false

/-- No cancelled task is still under way. -/
def NoneAlive : Prop :=
  ∀ task ∈ listener.tasks, task.isAlive = true → task.cancelled = false

instance : Decidable (NoneStarted listener) :=
  List.decidableBAll _ _

def Step.byTask : Step → Bool
  | .message _ _ => false
  | _ => true

/-- However the tasks go on, none of them starts after it was cancelled. -/
def Safe : Prop :=
  ∀ more final, (∀ label ∈ more, label.byTask = true) → run step listener more = some final → NoneStarted final

/-- A message that switches telemetry on comes when no cancelled task is under way. -/
def Quiet : Step → Prop
  | .message message queried => ∀ params, checkValidParam message queried = .start params → NoneAlive listener
  | _ => True

/-- The flag holds back the cancelled tasks. -/
structure Sound : Prop where
  started : NoneStarted listener
  alive : listener.isCanceled = false → NoneAlive listener

end

theorem alive_of_waiting (waiting : task.phase = .waiting) : task.isAlive = true := by
  simp [TelemetryTask.isAlive, waiting]

theorem alive_of_ready (ready : task.phase = .ready) : task.isAlive = true := by
  simp [TelemetryTask.isAlive, ready]

theorem not_alive_of_started (started : task.phase = .started) : task.isAlive = false := by
  simp [TelemetryTask.isAlive, started]

variable {index : Nat}

theorem advance_eq (stepped : listener.advance index phase following = some next) :
    ∃ task ∈ listener.tasks, task.phase = phase ∧
      next = { listener with tasks := listener.tasks.set index { task with phase := following task } } := by
  unfold advance at stepped
  split at stepped
  · cases stepped
  · rename_i task found
    split at stepped
    · rename_i same
      cases stepped
      exact ⟨task, mem_of_getElem? found, same, rfl⟩
    · cases stepped

variable (sound : Sound listener)
include sound

theorem Sound.advance (stepped : listener.advance index phase following = some next)
    (underWay : ∀ task : TelemetryTask, task.phase = phase → task.isAlive = true)
    (starts : ∀ task, following task = .started → listener.isCanceled = false) : Sound next := by
  obtain ⟨task, member, same, result⟩ := advance_eq stepped
  subst result
  have unmarked (active : listener.isCanceled = false) : task.cancelled = false :=
    sound.alive active task member (underWay task same)
  constructor
  · intro other there started
    rcases mem_or_eq_of_mem_set there with before | new
    · exact sound.started other before started
    · rw [new] at started ⊢
      exact unmarked (starts task started)
  · intro active other there alive
    rcases mem_or_eq_of_mem_set there with before | new
    · exact sound.alive active other before alive
    · rw [new]
      exact unmarked active

theorem Sound.byTask (byTask : label.byTask = true)
    (stepped : step listener label = some next) : Sound next := by
  cases label with
  | message message queried => cases byTask
  | poll index now =>
    refine sound.advance stepped (fun task => alive_of_waiting) ?_
    intro task started
    unfold pollPhase at started
    split at started
    · split at started <;> cases started
    · cases started
  | check index =>
    refine sound.advance stepped (fun task => alive_of_ready) ?_
    intro task started
    unfold checkPhase at started
    split at started
    · cases started
    · rename_i active
      exact Bool.eq_false_iff.mpr active

theorem Sound.handleStop : Sound listener.handleStop where
  started := by
    intro task member started
    obtain ⟨before, there, same⟩ := mem_map.mp member
    subst same
    by_cases alive : before.isAlive = true
    · rw [if_pos alive] at started
      exact absurd alive (by simp [@not_alive_of_started before started])
    · rw [if_neg alive] at started ⊢
      exact sound.started before there started
  alive := by
    intro impossible
    cases impossible

theorem submit_sound (params : TelemetryParams) :
    Sound (listener.submit params) ↔ NoneAlive listener := by
  constructor
  · intro after task member
    exact after.alive rfl task (mem_append_left _ member)
  · intro quiet
    constructor
    · exact forall_mem_append.mpr ⟨sound.started, forall_mem_singleton.mpr fun _ => rfl⟩
    · exact fun _ => forall_mem_append.mpr ⟨quiet, forall_mem_singleton.mpr fun _ => rfl⟩

omit sound

theorem start_sound : Sound initial where
  started := by simp [NoneStarted, initial]
  alive := by simp [NoneAlive, initial]

theorem Sound.safe (sound : Sound listener) : Safe listener := by
  intro more final byTask ran
  induction more generalizing listener with
  | nil =>
    cases ran
    exact sound.started
  | cons label rest ih =>
    obtain ⟨next, stepped, following⟩ := run_cons ran
    obtain ⟨here, later⟩ := forall_mem_cons.mp byTask
    exact ih (sound.byTask here stepped) later following

def moved (listener : TelemetryListener) (index : Nat) (task : TelemetryTask) (phase : TaskPhase) :
    TelemetryListener :=
  { listener with tasks := listener.tasks.set index { task with phase := phase } }

section
variable (found : listener.tasks[index]? = some task)
include found

theorem moved_found (phase : TaskPhase) :
    (listener.moved index task phase).tasks[index]? = some { task with phase := phase } := by
  rw [moved, List.getElem?_set_self (List.getElem?_eq_some_iff.mp found).1]

theorem poll_in_time (waiting : task.phase = .waiting) :
    step listener (.poll index task.params.beginTime) = some (listener.moved index task .ready) := by
  rw [step, advance, found]
  simp [waiting, pollPhase, moved]

theorem check_passes (ready : task.phase = .ready) (active : listener.isCanceled = false) :
    step listener (.check index) = some (listener.moved index task .started) := by
  rw [step, advance, found]
  simp [ready, checkPhase, active, moved]

theorem starts_of_alive (alive : task.isAlive = true) (active : listener.isCanceled = false) :
    ∃ more final, (∀ label ∈ more, label.byTask = true) ∧ run step listener more = some final ∧
      { task with phase := .started } ∈ final.tasks := by
  simp only [TelemetryTask.isAlive, Bool.or_eq_true, decide_eq_true_eq] at alive
  rcases alive with waiting | ready
  · have polled := moved_found found .ready
    refine ⟨[.poll index task.params.beginTime, .check index], _, by simp [Step.byTask], ?_,
      mem_of_getElem? (moved_found polled .started)⟩
    rw [run, poll_in_time found waiting, Option.bind_some, run, check_passes polled rfl active]
    rfl
  · refine ⟨[.check index], _, by simp [Step.byTask], ?_, mem_of_getElem? (moved_found found .started)⟩
    rw [run, check_passes found ready active]
    rfl

end

theorem safe_iff_sound : Safe listener ↔ Sound listener := by
  refine ⟨?_, Sound.safe⟩
  intro safe
  constructor
  · exact safe [] listener (by simp) rfl
  · intro active task member alive
    obtain ⟨index, found⟩ := mem_iff_getElem?.mp member
    obtain ⟨more, final, byTask, ran, started⟩ := starts_of_alive found alive active
    exact safe more final byTask ran { task with phase := .started } started rfl

theorem quiet_iff_safe (sound : Sound listener) {label : Step} :
    Quiet listener label ↔ ∀ next, step listener label = some next → Safe next := by
  cases label with
  | poll index now | check index => exact ⟨fun _ next stepped => (sound.byTask rfl stepped).safe, fun _ => trivial⟩
  | message message queried =>
    simp [Quiet, step, onUnorderedEvent, forall_eq', safe_iff_sound]
    cases verdict : checkValidParam message queried with
    | error telemetryId errorMsg => simp [sound]
    | close => simp [sound.handleStop]
    | start params => simp [submit_sound sound params]

/-- In every run, and however the tasks go on from any point of it without a further message, no task
starts after telemetry was switched off, if and only if telemetry is never switched on while a
cancelled task is under way. -/
theorem safe_iff_quiet (labels : List Step) :
    (∀ taken rest final, labels = taken ++ rest → run step initial taken = some final → Safe final) ↔
      Guarded step Quiet initial labels :=
  (guarded_iff (fun sound => quiet_iff_safe sound) (fun _ _ safe => safe_iff_sound.mp safe) Sound.safe
    start_sound).symm

def switchMessage (telemetryStatus : String) (traceOpenTime : Int64) : TelemetryMessage :=
  ⟨"id", .empty, "", telemetryStatus, traceOpenTime, 0, [], [], 0, 0, 0, 0⟩

/-- A task for time 100 is submitted and cancelled, a second one is submitted, and the first one wakes up
at its time. -/
def resumed : List Step :=
  [.message (switchMessage "on" 100) .emptyData, .message (switchMessage "off" 0) .emptyData,
    .message (switchMessage "on" 200) .emptyData, .poll 0 100, .check 0]

theorem cancelled_started : ∃ final, run step initial resumed = some final ∧ ¬ NoneStarted final := by
  have shown : (run step initial resumed).map (fun final => decide (NoneStarted final)) = some false := by decide
  obtain ⟨final, ran, started⟩ := Option.map_eq_some_iff.mp shown
  exact ⟨final, ran, of_decide_eq_false started⟩

end Hiview.TraceManager.TelemetryListener
