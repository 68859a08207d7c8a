import Hiview.EventLogger.LogCollection

/-! What becomes of the events that the logger has taken out of the pipeline. A pended
event is owed by one task until it is continued; a task that returns early drops it. -/
namespace Hiview.EventLogger
open List hiding below count length toString
open Option (some_inj)
variable {platform : Platform} {state next : State} {task : Task} {left : List Task} {world : World}

/-- A dump of the task queue concerns no event of the pipeline. -/
def Hop.carries : Hop → Bool
  | .judge => true
  | .ffrtDump => false
  | .collect => true
  | .checkEventOnContinue => true

def carried (tasks : List Task) : List Nat :=
  (tasks.filter (·.hop.carries)).map Task.id

/-- The events on their way and those put back. -/
def State.owed (state : State) : List Nat :=
  carried state.tasks ++ state.continued

def proceeds (platform : Platform) (state : State) (task : Task) (world : World) : Bool :=
  match task.hop with
  | .judge => (judgmentRateLimiting state.limit task.event world.uidNow world.tagNow).1
  | .ffrtDump => true
  | .collect => decide (fileName platform task.event false ∉ state.files) && world.created
  | .checkEventOnContinue => true

/-- A task that runs passes the rate limit, finds no log file of its name and can create it. -/
def Proceeds (platform : Platform) (state : State) : Step → Prop
  | .runTask index world => ∀ task ∈ state.tasks[index]?, proceeds platform state task world = true
  | _ => True

instance (platform : Platform) (state : State) : (label : Step) → Decidable (Proceeds platform state label)
  | .onEvent _ _ => .isTrue trivial
  | .runTask index world =>
    inferInstanceAs (Decidable (∀ task ∈ state.tasks[index]?, proceeds platform state task world = true))
  | .fileAppears _ => .isTrue trivial
  | .fileRemoved _ => .isTrue trivial

variable (first second : List Task)

theorem carried_append : carried (first ++ second) = carried first ++ carried second := by
  simp [carried]

theorem carried_perm {first second : List Task} (same : first.Perm second) : (carried first).Perm (carried second) :=
  (same.filter _).map _

structure Ran (platform : Platform) (state : State) (task : Task) (world : World) (next : State) : Prop where
  pended : next.pended = state.pended
  finished : next.finished = state.finished
  number : next.next = state.next
  kept : proceeds platform state task world = true → next.owed.Perm (carried [task] ++ state.owed)
  dropped : proceeds platform state task world = false → next.owed = state.owed ∧ task.hop.carries = true

theorem carried_singleton (carries : task.hop.carries = true) : carried [task] = [task.id] := by
  simp [carried, carries]

theorem Ran.goes (goesOn : proceeds platform state task world = true) (pended : next.pended = state.pended)
    (finished : next.finished = state.finished) (number : next.next = state.next)
    (kept : next.owed.Perm (carried [task] ++ state.owed)) : Ran platform state task world next where
  pended := pended
  finished := finished
  number := number
  kept _ := kept
  dropped stopped := absurd (goesOn.symm.trans stopped) (by decide)

theorem Ran.stops (stopped : proceeds platform state task world = false) (carries : task.hop.carries = true)
    (pended : next.pended = state.pended) (finished : next.finished = state.finished)
    (number : next.next = state.next) (dropped : next.owed = state.owed) : Ran platform state task world next where
  pended := pended
  finished := finished
  number := number
  kept goesOn := absurd (goesOn.symm.trans stopped) (by decide)
  dropped _ := ⟨dropped, carries⟩

section
variable (platform : Platform) (state : State) (task : Task) (isFfrt created : Bool)

theorem getFile_frame : ∃ info files,
    (getFile platform state task isFfrt created).2 = { state with info := info, files := files } := by
  unfold getFile
  dsimp only
  split
  · split <;> exact ⟨_, _, rfl⟩
  · split <;> exact ⟨_, _, rfl⟩

theorem getFile_opened :
    (getFile platform state task isFfrt created).1 =
      (decide (fileName platform task.event isFfrt ∉ state.files) && created) := by
  unfold getFile
  dsimp only
  split
  · rename_i present
    simp [present]
  · rename_i absent
    cases created <;> simp [absent]

end

theorem judge_ran (isJudge : task.hop = .judge) : Ran platform state task world (judge platform state task world) := by
  have carries : task.hop.carries = true := by rw [isJudge]; rfl
  unfold judge
  cases judged : judgmentRateLimiting state.limit task.event world.uidNow world.tagNow with
  | mk passed limit =>
    have goesOn : proceeds platform state task world = passed := by
      simp [proceeds, isJudge, judged]
    cases passed with
    | false => exact .stops goesOn carries rfl rfl rfl rfl
    | true =>
      refine .goes goesOn rfl rfl rfl ?_
      have dump : ∀ condition : Prop, [Decidable condition] →
          carried (if condition then [{ task with hop := .ffrtDump }] else []) = [] := by
        intro condition _
        split <;> rfl
      change (carried (state.tasks ++ _ ++ [{ task with hop := .collect }]) ++ state.continued).Perm _
      rw [carried_append, carried_append, dump, carried_singleton carries, append_nil, append_assoc]
      exact perm_middle

theorem startLogCollect_ran (isCollect : task.hop = .collect) :
    Ran platform state task world (startLogCollect platform state task world) := by
  have carries : task.hop.carries = true := by rw [isCollect]; rfl
  have opened := getFile_opened platform state task false world.created
  obtain ⟨info, files, frame⟩ := getFile_frame platform state task false world.created
  unfold startLogCollect
  generalize getFile platform state task false world.created = file at opened frame
  obtain ⟨isOpen, after⟩ := file
  cases frame
  have goesOn : proceeds platform state task world = isOpen := by
    simpa [proceeds, isCollect] using opened.symm
  cases isOpen with
  | false => exact .stops goesOn carries rfl rfl rfl rfl
  | true =>
    refine .goes goesOn rfl rfl rfl ?_
    change (carried (state.tasks ++ [{ task with hop := .checkEventOnContinue }]) ++ state.continued).Perm _
    rw [carried_append, carried_singleton carries, append_assoc]
    exact perm_middle

theorem startFfrtDump_ran (isDump : task.hop = .ffrtDump) :
    Ran platform state task world (startFfrtDump platform state task world) := by
  have goesOn : proceeds platform state task world = true := by simp [proceeds, isDump]
  have self : carried [task] = [] := by simp [carried, Hop.carries, isDump]
  obtain ⟨info, files, frame⟩ := getFile_frame platform state task true world.created
  unfold startFfrtDump
  rw [frame]
  split <;> exact .goes goesOn rfl rfl rfl (self ▸ .refl _)

theorem runTask_ran (platform : Platform) (state : State) (task : Task) (world : World) :
    Ran platform state task world (runTask platform state task world) := by
  unfold runTask
  cases hop : task.hop with
  | judge => exact judge_ran hop
  | ffrtDump => exact startFfrtDump_ran hop
  | collect => exact startLogCollect_ran hop
  | checkEventOnContinue =>
    refine .goes (by simp [proceeds, hop]) rfl rfl rfl ?_
    change (carried state.tasks ++ (state.continued ++ [task.id])).Perm _
    rw [carried_singleton (by rw [hop]; rfl), ← append_assoc]
    exact perm_append_comm

/-- The numbers tell the events apart. -/
structure Numbered (state : State) : Prop where
  distinct : (state.pended ++ state.finished).Nodup
  below : ∀ id ∈ state.pended ++ state.finished, id < state.next

theorem start_numbered (limit : RateLimit) (files : List String) : Numbered (start limit files) :=
  ⟨nodup_nil, fun _ member => absurd member not_mem_nil⟩

/-- What one step does to the account of the pended events. -/
structure Accounts (platform : Platform) (state : State) (label : Step) (next : State) (fresh : List Nat) : Prop where
  pended : next.pended = state.pended ++ fresh
  kept : Proceeds platform state label → next.owed.Perm (state.owed ++ fresh)
  dropped : ¬ Proceeds platform state label → next.owed.length < (state.owed ++ fresh).length

variable {label : Step}

theorem Accounts.unchanged (pended : next.pended = state.pended) (owed : next.owed = state.owed)
    (always : Proceeds platform state label) : Accounts platform state label next [] where
  pended := by rw [pended, append_nil]
  kept _ := by rw [owed, append_nil]
  dropped stops := (stops always).elim

theorem Accounts.owed_le {fresh : List Nat} (accounts : Accounts platform state label next fresh) :
    next.owed.length ≤ state.owed.length + fresh.length := by
  rw [← length_append]
  by_cases goesOn : Proceeds platform state label
  · exact (accounts.kept goesOn).length_eq.le
  · exact (accounts.dropped goesOn).le

theorem onEvent_accounts (state : State) (event : SysEvent) (checks : Checks) :
    ∃ fresh, Accounts platform state (.onEvent (some event) checks) (onEvent state event checks) fresh := by
  fun_cases onEvent state event checks with
  | case5 =>
    refine ⟨[state.next], rfl, fun _ => ?_, fun stops => (stops trivial).elim⟩
    change (carried (state.tasks ++ [⟨state.next, .judge, event⟩]) ++ state.continued).Perm _
    rw [carried_append, State.owed, append_assoc, append_assoc]
    exact perm_append_comm.append_left _
  | _ => exact ⟨[], .unchanged rfl rfl trivial⟩

theorem onEvent_numbered (numbered : Numbered state) (event : SysEvent) (checks : Checks) :
    Numbered (onEvent state event checks) := by
  have bound (id : Nat) (member : id ∈ state.pended ++ state.finished) : id < state.next + 1 :=
    Nat.lt_succ_of_lt (numbered.below id member)
  have new : state.next ∉ state.pended ++ state.finished := fun member => (numbered.below _ member).false
  have finishes : Numbered { state with next := state.next + 1, finished := state.finished ++ [state.next] } := by
    constructor
    · rw [← append_assoc]
      exact nodup_append_comm.mp (nodup_cons.mpr ⟨new, numbered.distinct⟩)
    · intro id member
      rw [← append_assoc] at member
      obtain old | last := mem_append.mp member
      · exact bound id old
      · rw [mem_singleton.mp last]
        exact Nat.lt_succ_self _
  have pends (tasks : List Task) :
      Numbered { state with next := state.next + 1, pended := state.pended ++ [state.next], tasks := tasks } := by
    have same : (state.pended ++ [state.next] ++ state.finished).Perm (state.next :: (state.pended ++ state.finished)) := by
      rw [append_assoc]
      exact perm_middle
    constructor
    · exact same.nodup_iff.mpr (nodup_cons.mpr ⟨new, numbered.distinct⟩)
    · intro id member
      obtain rfl | old := mem_cons.mp (same.mem_iff.mp member)
      · exact Nat.lt_succ_self _
      · exact bound id old
  fun_cases onEvent state event checks with
  | case1 | case2 => exact finishes
  | case3 | case4 => exact ⟨numbered.distinct, bound⟩
  | case5 => exact pends _

theorem runTask_accounts {index : Nat} (picked : TaskPool.pick state.tasks index = some (task, left)) :
    Accounts platform state (.runTask index world) (runTask platform { state with tasks := left } task world) [] := by
  have ran := runTask_ran platform { state with tasks := left } task world
  have found := TaskPool.pick_getElem? picked
  have goesOn : Proceeds platform state (.runTask index world) ↔ proceeds platform state task world = true := by
    simp [Proceeds, found]
  have before : state.owed.Perm (carried [task] ++ (carried left ++ state.continued)) := by
    rw [← append_assoc, ← carried_append]
    exact (carried_perm (TaskPool.pick_perm picked)).append_right _
  refine ⟨?_, ?_, ?_⟩
  · rw [ran.pended, append_nil]
  · intro kept
    rw [append_nil]
    exact (ran.kept (goesOn.mp kept)).trans before.symm
  · intro stops
    have stopped : proceeds platform state task world = false := by
      simpa using mt goesOn.mpr stops
    obtain ⟨same, carries⟩ := ran.dropped stopped
    rw [same, append_nil, before.length_eq, carried_singleton carries]
    exact Nat.lt_succ_self _

theorem step_accounts (stepped : step platform state label = some next) :
    ∃ fresh, Accounts platform state label next fresh := by
  cases label with
  | onEvent event checks =>
    cases event with
    | none =>
      obtain rfl := some_inj.mp stepped
      exact ⟨[], .unchanged rfl rfl trivial⟩
    | some event =>
      obtain rfl := some_inj.mp stepped
      exact onEvent_accounts state event checks
  | runTask index world =>
    obtain ⟨⟨task, left⟩, picked, rfl⟩ := Option.map_eq_some_iff.mp stepped
    exact ⟨[], runTask_accounts picked⟩
  | fileAppears name | fileRemoved name =>
    obtain rfl := some_inj.mp stepped
    exact ⟨[], .unchanged rfl rfl trivial⟩

theorem step_numbered (numbered : Numbered state) (stepped : step platform state label = some next) :
    Numbered next := by
  cases label with
  | onEvent event checks =>
    cases event with
    | none =>
      obtain rfl := some_inj.mp stepped
      exact numbered
    | some event =>
      obtain rfl := some_inj.mp stepped
      exact onEvent_numbered numbered event checks
  | runTask index world =>
    obtain ⟨⟨task, left⟩, _, rfl⟩ := Option.map_eq_some_iff.mp stepped
    have ran := runTask_ran platform { state with tasks := left } task world
    constructor
    · rw [ran.pended, ran.finished]
      exact numbered.distinct
    · rw [ran.pended, ran.finished, ran.number]
      exact numbered.below
  | fileAppears name | fileRemoved name =>
    obtain rfl := some_inj.mp stepped
    exact ⟨numbered.distinct, numbered.below⟩

/-- Some pended event is on its way no more and was not put back. -/
def Short (state : State) : Prop :=
  state.owed.length < state.pended.length

theorem step_short (short : Short state) (stepped : step platform state label = some next) : Short next := by
  obtain ⟨fresh, accounts⟩ := step_accounts stepped
  have atMost := accounts.owed_le
  unfold Short at short ⊢
  rw [accounts.pended, length_append]
  omega

variable (most : state.owed.length ≤ state.pended.length)
include most

theorem step_owed_le
    (stepped : step platform state label = some next) : next.owed.length ≤ next.pended.length := by
  obtain ⟨fresh, accounts⟩ := step_accounts stepped
  rw [accounts.pended, length_append]
  exact accounts.owed_le.trans (Nat.add_le_add_right most _)

theorem step_drops (stops : ¬ Proceeds platform state label)
    (stepped : step platform state label = some next) : Short next := by
  obtain ⟨fresh, accounts⟩ := step_accounts stepped
  have fewer := accounts.dropped stops
  unfold Short
  rw [accounts.pended, length_append]
  rw [length_append] at fewer
  omega

omit most

theorem step_owed (all : state.owed.Perm state.pended) (goesOn : Proceeds platform state label)
    (stepped : step platform state label = some next) : next.owed.Perm next.pended := by
  obtain ⟨fresh, accounts⟩ := step_accounts stepped
  rw [accounts.pended]
  exact (accounts.kept goesOn).trans (all.append_right fresh)

/-- Every pended event is continued or finished once. -/
def PutBack (state : State) : Prop :=
  ∀ id ∈ state.pended, state.continued.count id + state.finished.count id = 1

theorem Numbered.finished_count {id : Nat} (numbered : Numbered state) (member : id ∈ state.pended) :
    state.finished.count id = 0 := by
  apply count_eq_zero_of_not_mem
  intro finished
  exact (disjoint_of_nodup_append numbered.distinct) member finished

theorem Numbered.putBack (numbered : Numbered state) (all : state.continued.Perm state.pended) : PutBack state := by
  intro id member
  have distinct := numbered.distinct.of_append_left
  rw [numbered.finished_count member, all.count_eq, count_eq_one_of_mem distinct member]

theorem Numbered.not_putBack (numbered : Numbered state) (fewer : state.continued.length < state.pended.length) :
    ¬ PutBack state := by
  intro putBack
  have distinct := numbered.distinct.of_append_left
  have contained : state.pended ⊆ state.continued := by
    intro id member
    have once := putBack id member
    rw [numbered.finished_count member] at once
    exact count_pos_iff.mp (by omega)
  have length := (subperm_of_subset distinct contained).length_le
  omega

/-- Once all tasks and timers have run, every event that was pended has been put back once
if and only if no task on the way stopped. -/
theorem putBack_iff_guarded (platform : Platform) (limit : RateLimit) (files : List String) (labels : List Step)
    (final : State) (ran : Transition.run (step platform) (start limit files) labels = some final)
    (drained : final.tasks = []) :
    PutBack final ↔ Transition.Guarded (step platform) (Proceeds platform) (start limit files) labels := by
  have numbered : Numbered final := Transition.run_invariant step_numbered (start_numbered limit files) ran
  have owed : final.owed = final.continued := by
    rw [State.owed, drained]
    rfl
  constructor
  · intro putBack
    by_contra unguarded
    have most : (start limit files).owed.length ≤ (start limit files).pended.length := Nat.le_refl 0
    have short : Short final := Transition.run_unguarded step_owed_le step_drops step_short most unguarded ran
    rw [Short, owed] at short
    exact numbered.not_putBack short putBack
  · intro guarded
    have none : (start limit files).owed.Perm (start limit files).pended := List.Perm.refl []
    have all : final.owed.Perm final.pended := Transition.run_guarded step_owed none guarded ran
    rw [owed] at all
    exact numbered.putBack all

def samplePlatform : Platform := ⟨false, toString⟩

/-- An event of the system without an interval of its own. -/
def sampleEvent : SysEvent := { eventName := "E", pid := 7, action := "s" }

/-- The first event gets its log; of the others one comes too early, one finds the log
file of the first, and one cannot create its own. -/
def droppedLabels : List Step :=
  [.onEvent (some { sampleEvent with interval := 60 }) {}, .runTask 0 {}, .runTask 0 {}, .runTask 0 {},
    .onEvent (some { sampleEvent with interval := 60 }) {}, .runTask 0 {},
    .onEvent (some sampleEvent) {}, .runTask 0 {}, .runTask 0 {},
    .onEvent (some { sampleEvent with pid := 8 }) {}, .runTask 0 {}, .runTask 0 { created := false }]

theorem droppedLabels_lost :
    ∃ final, Transition.run (step samplePlatform) (start {} []) droppedLabels = some final ∧ final.tasks = [] ∧
      final.pended = [0, 1, 2, 3] ∧ final.continued = [0] ∧ final.finished = [] ∧ ¬ PutBack final := by
  have ran : (Transition.run (step samplePlatform) (start {} []) droppedLabels).map
      (fun final => (final.tasks, final.pended, final.continued, final.finished)) =
        some ([], [0, 1, 2, 3], [0], []) := by
    decide +kernel
  obtain ⟨final, reached, same⟩ := Option.map_eq_some_iff.mp ran
  simp only [Prod.mk.injEq] at same
  obtain ⟨tasks, pended, continued, finished⟩ := same
  refine ⟨final, reached, tasks, pended, continued, finished, ?_⟩
  intro putBack
  have once := putBack 1 (by rw [pended]; decide)
  rw [continued, finished] at once
  exact absurd once (by decide)

/-- One event that is logged and continued. -/
def loggedLabels : List Step :=
  [.onEvent (some { sampleEvent with interval := 60 }) {}, .runTask 0 {}, .runTask 0 {}, .runTask 0 {}]

theorem putBack_iff_guarded_logged :
    ∃ final, Transition.run (step samplePlatform) (start {} []) loggedLabels = some final ∧ final.tasks = [] ∧
      final.pended = [0] ∧
      (PutBack final ↔ Transition.Guarded (step samplePlatform) (Proceeds samplePlatform) (start {} []) loggedLabels) := by
  have ran : (Transition.run (step samplePlatform) (start {} []) loggedLabels).map
      (fun final => (final.tasks, final.pended)) = some ([], [0]) := by
    decide +kernel
  obtain ⟨final, reached, same⟩ := Option.map_eq_some_iff.mp ran
  obtain ⟨tasks, pended⟩ := Prod.mk.inj same
  exact ⟨final, reached, tasks, pended, putBack_iff_guarded samplePlatform {} [] loggedLabels final reached tasks⟩

/-! ### The tasks come to an end -/

def Hop.weight : Hop → Nat
  | .judge => 4
  | .ffrtDump => 1
  | .collect => 2
  | .checkEventOnContinue => 1

def work : List Task → Nat
  | [] => 0
  | task :: rest => task.hop.weight + work rest

theorem work_append : work (first ++ second) = work first + work second := by
  induction first with
  | nil => simp [work]
  | cons task rest ih =>
    rw [cons_append, work, work, ih]
    omega

theorem runTask_work (platform : Platform) (state : State) (task : Task) (world : World) :
    work (runTask platform state task world).tasks < task.hop.weight + work state.tasks := by
  unfold runTask
  cases hop : task.hop with
  | judge =>
    unfold judge
    dsimp only
    split
    · have dump : ∀ condition : Prop, [Decidable condition] →
          work (if condition then [{ task with hop := .ffrtDump }] else []) ≤ 1 := by
        intro condition _
        split <;> simp [work, Hop.weight]
      rw [work_append, work_append]
      have most := dump (platform.windowManager ∧
        (task.event.eventName = "GET_DISPLAY_SNAPSHOT" ∨ task.event.eventName = "CREATE_VIRTUAL_SCREEN"))
      simp only [work, Hop.weight] at most ⊢
      omega
    · simp [Hop.weight]
  | ffrtDump =>
    obtain ⟨info, files, frame⟩ := getFile_frame platform state task true world.created
    dsimp only
    unfold startFfrtDump
    rw [frame]
    split <;> simp [Hop.weight]
  | collect =>
    obtain ⟨info, files, frame⟩ := getFile_frame platform state task false world.created
    unfold startLogCollect
    dsimp only
    rw [frame]
    split
    · rw [work_append]
      simp only [work, Hop.weight]
      omega
    · simp [Hop.weight]
  | checkEventOnContinue => simp [Hop.weight]

/-- The environment answers each task anew. -/
theorem drains (platform : Platform) (worlds : Nat → World) (state : State) :
    ∃ count final, Transition.run (step platform) state ((List.range count).map fun turn => .runTask 0 (worlds turn)) =
      some final ∧ final.tasks = [] := by
  induction size : work state.tasks using Nat.strong_induction_on generalizing worlds state with
  | _ amount ih =>
    cases tasks : state.tasks with
    | nil => exact ⟨0, state, rfl, tasks⟩
    | cons task left =>
      have less := runTask_work platform { state with tasks := left } task (worlds 0)
      have smaller : work (runTask platform { state with tasks := left } task (worlds 0)).tasks < amount := by
        rw [← size, tasks, work]
        exact less
      obtain ⟨count, final, ran, drained⟩ := ih _ smaller (fun turn => worlds (turn + 1)) _ rfl
      refine ⟨count + 1, final, ?_, drained⟩
      rw [range_succ_eq_map, map_cons, map_map, Transition.run, step, tasks, TaskPool.pick_first]
      exact ran

end Hiview.EventLogger
