import Hiview.Base.Pipeline

/-! What a delivery comes to, whatever task runs next. At any time at most one task can
move the event on; the checks of plugins that pended or finished find the list shorter, or
the event pending or finished, and do nothing. An event that was pended keeps its flag in
`OnContinue`, so a plugin that is not interested then ends the delivery. -/
namespace Hiview.Base
open List TaskPool Transition

def expected : List PipelinePlugin → List PipelinePlugin
  | [] => []
  | plugin :: rest =>
    match plugin.behaviour with
    | .expired | .uninterested => expected rest
    | .returns | .pends => plugin :: expected rest
    | .finishes => [plugin]

/-- The next plugin, if any, is interested. -/
def NextTakes : List PipelinePlugin → Prop
  | [] => True
  | plugin :: rest =>
    match plugin.behaviour with
    | .expired => NextTakes rest
    | .uninterested => False
    | .returns | .pends | .finishes => True

/-- No plugin that pends is followed by one that is not interested. -/
def Smooth : List PipelinePlugin → Prop
  | [] => True
  | plugin :: rest =>
    match plugin.behaviour with
    | .expired | .uninterested | .returns => Smooth rest
    | .pends => NextTakes rest ∧ Smooth rest
    | .finishes => True

/-- The delivery is complete and exactly once, in every order of the tasks. -/
structure Delivered (plugins : List PipelinePlugin) : Prop where
  safe : ∀ picks event, Transition.run PipelineEvent.step (processEvent plugins) picks = some event →
    event.emptyFront = false ∧ event.finished ≤ 1 ∧ event.handled <+: expected plugins
  complete : ∀ picks event, Transition.run PipelineEvent.step (processEvent plugins) picks = some event →
    event.tasks = [] → event.handled = expected plugins ∧ event.finished = 1
  ends : ∀ picks event, Transition.run PipelineEvent.step (processEvent plugins) picks = some event →
    picks.length ≤ 4 * plugins.length + 1

def addFirst (plugin : PipelinePlugin) (result : List PipelinePlugin × Bool) : List PipelinePlugin × Bool :=
  (plugin :: result.1, result.2)

/-- The plugins that handle the event from here on, and whether it is finished. -/
def fate (pending : Bool) : List PipelinePlugin → List PipelinePlugin × Bool
  | [] => ([], true)
  | plugin :: rest =>
    match plugin.behaviour with
    | .expired => fate pending rest
    | .uninterested => if pending then ([], false) else fate false rest
    | .returns => addFirst plugin (fate false rest)
    | .pends => addFirst plugin (fate true rest)
    | .finishes => ([plugin], true)

namespace PipelinePlugin

/-- What comes of the event when the plugin handles it. -/
def handling (plugin : PipelinePlugin) (rest : List PipelinePlugin) : List PipelinePlugin × Bool :=
  match plugin.behaviour with
  | .pends => addFirst plugin (fate true rest)
  | .finishes => ([plugin], true)
  | .expired | .uninterested | .returns => addFirst plugin (fate false rest)

end PipelinePlugin

/-- The event is finished exactly when no plugin that pends is followed by one that is not
interested, and then every plugin has handled it that should. -/
theorem fate_finished_iff (pending : Bool) (plugins : List PipelinePlugin) :
    (fate pending plugins).2 = true ↔ (pending = true → NextTakes plugins) ∧ Smooth plugins := by
  induction plugins generalizing pending with
  | nil => simp [fate, NextTakes, Smooth]
  | cons plugin rest ih =>
    rw [fate, NextTakes, Smooth]
    cases plugin.behaviour with
    | expired => exact ih pending
    | uninterested => cases pending <;> simp [ih]
    | returns => simp [addFirst, ih]
    | pends => simp [addFirst, ih]
    | finishes => simp

theorem fate_of_finished (finished : (fate pending plugins).2 = true) :
    (fate pending plugins).1 = expected plugins := by
  induction plugins generalizing pending with
  | nil => rfl
  | cons plugin rest ih =>
    rw [fate] at finished ⊢
    rw [expected]
    cases kind : plugin.behaviour with
    | expired =>
      rw [kind] at finished
      exact ih finished
    | uninterested =>
      rw [kind] at finished
      cases pending with
      | true => cases finished
      | false => exact ih finished
    | returns | pends =>
      rw [kind] at finished
      exact congrArg (plugin :: ·) (ih finished)
    | finishes => rfl

namespace PipelineEvent

/-- What has been handled, with what will be. -/
def ahead (event : PipelineEvent) (result : List PipelinePlugin × Bool) : List PipelinePlugin × Bool :=
  (event.handled ++ result.1, result.2)

/-- How `OnContinue` leaves an event that is not finished. -/
inductive Continued (event : PipelineEvent) (plugins : List PipelinePlugin) : PipelineEvent → Prop where
  | ended (started : Bool) (result : fate event.hasPending plugins = ([], true)) :
      Continued event plugins (onFinish { event with processors := [], startDeliver := started })
  | stalled (rest : List PipelinePlugin) (pending : event.hasPending = true)
      (result : fate event.hasPending plugins = ([], false)) :
      Continued event plugins { event with processors := rest, startDeliver := true }
  | called (plugin : PipelinePlugin) (rest : List PipelinePlugin) (shorter : rest.length < plugins.length)
      (result : fate event.hasPending plugins = plugin.handling rest) :
      Continued event plugins (add { event with processors := rest, startDeliver := true } (.proxy plugin))

variable {next : PipelineEvent}

theorem Continued.skip (continued : Continued { event with processors := rest, startDeliver := true } rest next)
    (same : fate event.hasPending (plugin :: rest) = fate event.hasPending rest) :
    Continued event (plugin :: rest) next := by
  cases continued with
  | ended started result => exact .ended started (same.trans result)
  | stalled left pending result => exact .stalled left pending (same.trans result)
  | called next left shorter result => exact .called next left (Nat.lt_succ_of_lt shorter) (same.trans result)

theorem continueWith_continued (unfinished : event.hasFinish = false) (plugins : List PipelinePlugin) :
    Continued event plugins (event.continueWith plugins) := by
  induction plugins generalizing event with
  | nil =>
    rw [continueWith, unfinished]
    exact .ended event.startDeliver rfl
  | cons plugin rest ih =>
    rw [continueWith]
    cases kind : plugin.behaviour with
    | expired => exact Continued.skip (ih unfinished) (by rw [fate, kind])
    | uninterested =>
      dsimp only
      split
      · case isTrue free =>
        have unpended : event.hasPending = false := by simpa [unfinished] using free
        exact Continued.skip (ih unfinished) (by simp [fate, kind, unpended])
      · case isFalse stuck =>
        have pending : event.hasPending = true := by simpa [unfinished] using stuck
        exact .stalled rest pending (by simp [fate, kind, pending])
    | returns | pends | finishes =>
      exact .called plugin rest (Nat.lt_succ_self _) (by rw [fate, PipelinePlugin.handling, kind])

/-- Checks that were left behind when at least so many processors were there. -/
def Late (bound : Nat) (tasks : List PipelineTask) : Prop :=
  ∀ task ∈ tasks, ∃ size, task = .check size ∧ bound ≤ size

/-- How far a delivery is that comes to a result: the one task that can move the event on
is a continuation, a call of a plugin or the end of one that returned, or there is none. -/
inductive Phase (total : List PipelinePlugin × Bool) (event : PipelineEvent) : Prop where
  | going (rest : List PipelineTask) (pool : event.tasks.Perm (.resume :: rest))
      (late : Late event.processors.length rest) (pending : rest ≠ [] → event.hasPending = true)
      (unfinished : event.hasFinish = false) (none : event.finished = 0)
      (goal : event.ahead (fate event.hasPending event.processors) = total)
  | called (plugin : PipelinePlugin) (rest : List PipelineTask) (pool : event.tasks.Perm (.proxy plugin :: rest))
      (late : Late (event.processors.length + 1) rest) (unfinished : event.hasFinish = false)
      (none : event.finished = 0) (goal : event.ahead (plugin.handling event.processors) = total)
  | returned (rest : List PipelineTask) (pool : event.tasks.Perm (.check event.processors.length :: rest))
      (late : Late (event.processors.length + 1) rest) (unpended : event.hasPending = false)
      (unfinished : event.hasFinish = false) (none : event.finished = 0)
      (goal : event.ahead (fate false event.processors) = total)
  | settled (late : Late 0 event.tasks) (stopped : event.hasFinish = true ∨ event.hasPending = true)
      (handled : event.handled = total.1) (finished : event.finished = if total.2 then 1 else 0)

theorem Late.mono {tasks : List PipelineTask} (late : Late bound tasks) (order : lower ≤ bound) :
    Late lower tasks := by
  intro task listed
  obtain ⟨size, same, order'⟩ := late task listed
  exact ⟨size, same, order.trans order'⟩

variable {tasks others : List PipelineTask}

theorem Late.subset (late : Late bound tasks) (listed : ∀ task ∈ others, task ∈ tasks) : Late bound others :=
  fun task other => late task (listed task other)

theorem Late.append {tasks : List PipelineTask} (late : Late bound tasks) (order : bound ≤ size) :
    Late bound (tasks ++ [.check size]) :=
  forall_mem_append.mpr ⟨late, forall_mem_singleton.mpr ⟨size, rfl, order⟩⟩

theorem checkContinue_idle {event : PipelineEvent}
    (idle : event.hasFinish = true ∨ event.hasPending = true ∨ size ≠ event.processors.length) :
    event.checkContinue size = event := by
  rw [checkContinue, if_neg]
  rcases idle with finish | pending | other
  · simp [finish]
  · simp [pending]
  · simp [other]

variable {total : List PipelinePlugin × Bool} {event : PipelineEvent}

theorem onContinue_phase (late : Late event.processors.length event.tasks)
    (unfinished : event.hasFinish = false) (none : event.finished = 0)
    (goal : event.ahead (fate event.hasPending event.processors) = total) :
    Phase total event.onContinue ∧ event.onContinue.emptyFront = event.emptyFront := by
  have continued := continueWith_continued unfinished event.processors
  rw [onContinue]
  generalize event.continueWith event.processors = next at continued
  cases continued with
  | ended started result =>
    rw [result] at goal
    subst goal
    exact ⟨.settled (late.mono (Nat.zero_le _)) (.inl rfl) (append_nil _).symm (congrArg (· + 1) none), rfl⟩
  | stalled rest pending result =>
    rw [result] at goal
    subst goal
    exact ⟨.settled (late.mono (Nat.zero_le _)) (.inr pending) (append_nil _).symm none, rfl⟩
  | called plugin rest shorter result =>
    rw [result] at goal
    exact ⟨.called plugin event.tasks perm_append_comm (late.mono shorter) unfinished none goal, rfl⟩

theorem onEventProxy_phase (late : Late (event.processors.length + 1) event.tasks)
    (unfinished : event.hasFinish = false) (none : event.finished = 0)
    (goal : event.ahead (plugin.handling event.processors) = total) :
    Phase total (event.onEventProxy plugin) ∧ (event.onEventProxy plugin).emptyFront = event.emptyFront := by
  have appended : ∀ result : List PipelinePlugin × Bool, event.ahead (addFirst plugin result) =
      (event.handled ++ [plugin] ++ result.1, result.2) := by
    simp [ahead, addFirst]
  rw [onEventProxy]
  rw [PipelinePlugin.handling] at goal
  cases kind : plugin.behaviour with
  | pends =>
    rw [kind] at goal
    refine ⟨.going (event.tasks ++ [.check event.processors.length]) ?_ ?_ (fun _ => rfl) unfinished none
      ((appended _).symm.trans goal), rfl⟩
    · change ((event.tasks ++ [PipelineTask.resume]) ++ [PipelineTask.check event.processors.length]).Perm _
      rw [append_assoc]
      exact perm_middle
    · exact (late.mono (Nat.le_succ _)).append (Nat.le_refl _)
  | finishes =>
    rw [kind] at goal
    subst goal
    exact ⟨.settled ((late.mono (Nat.zero_le _)).append (Nat.zero_le _)) (.inl rfl) rfl (congrArg (· + 1) none), rfl⟩
  | expired | uninterested | returns =>
    rw [kind] at goal
    exact ⟨.returned event.tasks perm_append_comm late rfl unfinished none ((appended _).symm.trans goal), rfl⟩

theorem late_idle (late : Late bound rest) (listed : task ∈ rest)
    (idle : ∀ size, bound ≤ size → event.hasFinish = true ∨ event.hasPending = true ∨ size ≠ event.processors.length) :
    perform { event with tasks := left } task = { event with tasks := left } := by
  obtain ⟨size, rfl, order⟩ := late task listed
  exact checkContinue_idle (idle size order)

theorem perform_phase (phase : Phase total event) (picked : pick event.tasks index = some (task, left)) :
    Phase total (perform { event with tasks := left } task) ∧
      (perform { event with tasks := left } task).emptyFront = event.emptyFront := by
  cases phase with
  | going rest pool late pending unfinished none goal =>
    rcases pick_token picked pool with ⟨rfl, remaining⟩ | ⟨others, listed, remaining, among⟩
    · exact onContinue_phase (late.subset fun _ => remaining.mem_iff.mp) unfinished none goal
    · have pends : event.hasPending = true := pending (ne_nil_of_mem listed)
      rw [late_idle late listed fun _ _ => .inr (.inl pends)]
      exact ⟨.going others remaining (late.subset among) (fun _ => pends) unfinished none goal, rfl⟩
  | called plugin rest pool late unfinished none goal =>
    rcases pick_token picked pool with ⟨rfl, remaining⟩ | ⟨others, listed, remaining, among⟩
    · exact onEventProxy_phase (late.subset fun _ => remaining.mem_iff.mp) unfinished none goal
    · rw [late_idle late listed fun size order => .inr (.inr (Nat.ne_of_gt order))]
      exact ⟨.called plugin others remaining (late.subset among) unfinished none goal, rfl⟩
  | returned rest pool late unpended unfinished none goal =>
    rcases pick_token picked pool with ⟨rfl, remaining⟩ | ⟨others, listed, remaining, among⟩
    · have continues : perform { event with tasks := left } (.check event.processors.length) =
          onContinue { event with tasks := left } := by
        simp [perform, checkContinue, unpended, unfinished]
      rw [continues]
      refine onContinue_phase (Late.mono (late.subset fun _ => remaining.mem_iff.mp) (Nat.le_succ _)) unfinished none ?_
      rw [← goal]
      simp only [unpended]
      rfl
    · rw [late_idle late listed fun size order => .inr (.inr (Nat.ne_of_gt order))]
      exact ⟨.returned others remaining (late.subset among) unpended unfinished none goal, rfl⟩
  | settled late stopped handled finished =>
    have same := pick_perm picked
    rw [late_idle late (same.mem_iff.mpr mem_cons_self) fun _ _ => stopped.imp id .inl]
    refine ⟨.settled (late.subset fun other listed => ?_) stopped handled finished, rfl⟩
    exact same.mem_iff.mpr (mem_cons_of_mem _ listed)

structure Kept (total : List PipelinePlugin × Bool) (event : PipelineEvent) : Prop where
  phase : Phase total event
  front : event.emptyFront = false

theorem step_kept (kept : Kept total event) (stepped : event.step index = some next) :
    Kept total next := by
  obtain ⟨⟨task, left⟩, picked, rfl⟩ := Option.map_eq_some_iff.mp stepped
  obtain ⟨phase, front⟩ := perform_phase kept.phase picked
  exact ⟨phase, front.trans kept.front⟩

theorem processEvent_kept (plugins : List PipelinePlugin) :
    Kept (fate false plugins) (processEvent plugins) where
  phase := .going [] (List.Perm.refl _) (fun _ listed => absurd listed not_mem_nil) (fun some => absurd rfl some)
    rfl rfl rfl
  front := rfl

theorem run_kept (ran : run step (processEvent plugins) picks = some event) :
    Kept (fate false plugins) event :=
  run_invariant step_kept (processEvent_kept plugins) ran

theorem Phase.safe (phase : Phase total event) : event.finished ≤ 1 ∧ event.handled <+: total.1 := by
  cases phase with
  | going _ _ _ _ _ none goal | called _ _ _ _ _ none goal | returned _ _ _ _ _ none goal =>
    subst goal
    exact ⟨none ▸ Nat.zero_le 1, prefix_append _ _⟩
  | settled _ _ handled finished =>
    rw [handled, finished]
    exact ⟨by split <;> decide, prefix_rfl⟩

theorem Phase.complete (phase : Phase total event) (done : event.tasks = []) :
    event.handled = total.1 ∧ event.finished = if total.2 then 1 else 0 := by
  cases phase with
  | going _ pool | called _ _ pool | returned _ pool =>
    rw [done] at pool
    exact absurd pool.nil_eq (by simp)
  | settled _ _ handled finished => exact ⟨handled, finished⟩

/-! ### Every delivery ends -/

/-- How many more tasks can come of a task. -/
def load : List PipelineTask → Nat
  | [] => 0
  | .resume :: rest | .check _ :: rest => 1 + load rest
  | .proxy _ :: rest => 3 + load rest

def weight (event : PipelineEvent) : Nat := 4 * event.processors.length + load event.tasks

theorem load_cons (task : PipelineTask) (rest : List PipelineTask) : load (task :: rest) = load [task] + load rest := by
  cases task <;> rfl

theorem load_perm (same : tasks.Perm others) : load tasks = load others := by
  induction same with
  | nil => rfl
  | @cons task left right _ ih => rw [load_cons task left, load_cons task right, ih]
  | swap first second rest =>
    rw [load_cons second (first :: rest), load_cons first rest, load_cons first (second :: rest),
      load_cons second rest]
    omega
  | trans _ _ first second => exact first.trans second

theorem load_append (tasks : List PipelineTask) (task : PipelineTask) :
    load (tasks ++ [task]) = load tasks + load [task] := by
  rw [load_perm perm_append_comm, singleton_append, load_cons, Nat.add_comm]

theorem continueWith_weight (event : PipelineEvent) (plugins : List PipelinePlugin) :
    (event.continueWith plugins).weight ≤ 4 * plugins.length + load event.tasks := by
  induction plugins generalizing event with
  | nil =>
    rw [continueWith]
    split <;> exact Nat.le_refl _
  | cons plugin rest ih =>
    have shorter : 4 * rest.length + load event.tasks ≤ 4 * (plugin :: rest).length + load event.tasks := by
      rw [length_cons]
      omega
    rw [continueWith]
    cases plugin.behaviour with
    | expired => exact (ih _).trans shorter
    | uninterested =>
      dsimp only
      split
      · exact (ih _).trans shorter
      · exact shorter
    | returns | pends | finishes =>
      simp only [weight, add, load_append, length_cons, load]
      omega

theorem perform_weight (event : PipelineEvent) (task : PipelineTask) :
    (event.perform task).weight < event.weight + load [task] := by
  cases task with
  | resume => exact Nat.lt_succ_of_le (continueWith_weight event event.processors)
  | check processorSize =>
    rw [perform, checkContinue]
    split
    · exact Nat.lt_succ_of_le (continueWith_weight event event.processors)
    · exact Nat.lt_succ_self _
  | proxy plugin =>
    rw [perform, onEventProxy]
    cases plugin.behaviour <;>
      simp only [weight, add, onPending, onFinish, load_append, load] <;> omega

theorem step_weight (stepped : event.step index = some next) : next.weight < event.weight := by
  obtain ⟨⟨task, left⟩, picked, rfl⟩ := Option.map_eq_some_iff.mp stepped
  have loads : load event.tasks = load [task] + load left := by
    rw [load_perm (pick_perm picked), load_cons]
  have smaller := perform_weight { event with tasks := left } task
  simp only [weight] at smaller ⊢
  omega

theorem run_weight (ran : run step event picks = some final) :
    picks.length + final.weight ≤ event.weight := by
  induction picks generalizing event with
  | nil =>
    cases ran
    exact Nat.le_of_eq (Nat.zero_add _)
  | cons index rest ih =>
    obtain ⟨next, first, following⟩ := run_cons ran
    have smaller := step_weight first
    have later := ih following
    rw [length_cons]
    omega

theorem exists_done (event : PipelineEvent) :
    ∃ picks final, run step event picks = some final ∧ final.tasks = [] := by
  induction size : event.weight using Nat.strong_induction_on generalizing event with
  | _ size ih =>
    subst size
    cases tasks : event.tasks with
    | nil => exact ⟨[], event, rfl, tasks⟩
    | cons task rest =>
      have first : event.step 0 = some (perform { event with tasks := rest } task) := by
        rw [step, tasks, pick_first]
        rfl
      obtain ⟨picks, final, ran, done⟩ := ih _ (step_weight first) _ rfl
      refine ⟨0 :: picks, final, ?_, done⟩
      rw [run, first]
      exact ran

end PipelineEvent
open PipelineEvent (exists_done run_kept run_weight)

theorem delivered_iff_smooth (plugins : List PipelinePlugin) : Delivered plugins ↔ Smooth plugins := by
  have finishes := fate_finished_iff false plugins
  constructor
  · intro delivered
    obtain ⟨picks, event, ran, done⟩ := exists_done (processEvent plugins)
    obtain ⟨-, once⟩ := delivered.complete picks event ran done
    obtain ⟨-, finished⟩ := (run_kept ran).phase.complete done
    rw [once] at finished
    split at finished
    · case isTrue result => exact (finishes.mp result).2
    · cases finished
  · intro smooth
    have result : (fate false plugins).2 = true := finishes.mpr ⟨nofun, smooth⟩
    have handles := fate_of_finished result
    constructor
    · intro picks event ran
      obtain ⟨phase, front⟩ := run_kept ran
      exact ⟨front, handles ▸ phase.safe⟩
    · intro picks event ran done
      have complete := (run_kept ran).phase.complete done
      rwa [handles, if_pos result] at complete
    · intro picks event ran
      exact (Nat.le_add_right _ _).trans (run_weight ran)

/-- The first plugin pends, the second is not interested, and the third never sees the event. -/
def pendedPipeline : List PipelinePlugin :=
  [⟨"pends", .pends⟩, ⟨"uninterested", .uninterested⟩, ⟨"returns", .returns⟩]

theorem pendedPipeline_stalls :
    ∃ event, Transition.run PipelineEvent.step (processEvent pendedPipeline) [0, 0, 0, 0] = some event ∧
      event.tasks = [] ∧ event.handled = [⟨"pends", .pends⟩] ∧ event.finished = 0 ∧
      ¬ Delivered pendedPipeline := by
  refine ⟨_, rfl, rfl, rfl, rfl, fun delivered => ?_⟩
  obtain ⟨-, once⟩ := delivered.complete [0, 0, 0, 0] _ rfl rfl
  cases once

/-- Complete or stalled, a delivery comes to the fate of its plugins in every order of the tasks. -/
theorem run_fate (picks : List Nat) (ran : run PipelineEvent.step (processEvent plugins) picks = some event) :
    event.emptyFront = false ∧ event.finished ≤ 1 ∧ event.handled <+: (fate false plugins).1 ∧
      picks.length ≤ 4 * plugins.length + 1 ∧
      (event.tasks = [] → event.handled = (fate false plugins).1 ∧
        event.finished = if (fate false plugins).2 then 1 else 0) := by
  obtain ⟨phase, front⟩ := run_kept ran
  obtain ⟨once, ahead⟩ := phase.safe
  have bound := run_weight ran
  exact ⟨front, once, ahead, (Nat.le_add_right _ _).trans bound, phase.complete⟩

theorem run_fate_pended :
    ∃ event, run PipelineEvent.step (processEvent pendedPipeline) [0, 0, 0, 0] = some event ∧
      event.handled = (fate false pendedPipeline).1 :=
  ⟨_, rfl, ((run_fate [0, 0, 0, 0] rfl).2.2.2.2 rfl).1⟩

end Hiview.Base
