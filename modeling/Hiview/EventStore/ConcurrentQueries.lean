import Hiview.Lib.Transition

/-! How many queries from outside run at a time. `SysEventQueryWrapper::Execute`
looks at the counter and increases it in different critical sections, with the
check of the frequency between them. -/
namespace Hiview.EventStore

/-- What a call of `Execute` does next. -/
inductive CallPhase where
  | checkLimit (limit : Int)
  | checkConcurrent
  | checkFrequence
  | increase
  | execute
  | checkCostTime
  | returned
  deriving DecidableEq

def CallPhase.runs (phase : CallPhase) : Nat := if phase = .execute then 1 else 0

def CallPhase.waits (phase : CallPhase) : Nat :=
  (if phase = .checkFrequence then 1 else 0) + if phase = .increase then 1 else 0

/-- The calls so far, and the counter for queries from outside. -/
structure ConcurrentQueries where
  calls : List CallPhase
  counter : Int
  deriving DecidableEq

/-- A call goes on by one critical section; the checks of the frequency and of the
time find what they find. -/
inductive QueryLabel where
  | call (limit : Int)
  | go (index : Nat) (valid : Bool)
  deriving DecidableEq

namespace ConcurrentQueries

def initial : ConcurrentQueries := ⟨[], 0⟩

def queryLimit : Int := 1000

def concurrentQueryCntLimit : Nat := 4

/-- One critical section of a call: its next phase and the counter. -/
def goOn (counter : Int) (valid : Bool) : CallPhase → CallPhase × Int
  | .checkLimit limit => (if limit > queryLimit then .returned else .checkConcurrent, counter)
  | .checkConcurrent =>
    (if counter < concurrentQueryCntLimit then .checkFrequence else .returned, counter)
  | .checkFrequence => (if valid then .increase else .returned, counter)
  | .increase => (.execute, counter + 1)
  | .execute => (.checkCostTime, counter - 1)
  | .checkCostTime => (.returned, counter)
  | .returned => (.returned, counter)

section
variable (state : ConcurrentQueries)

def step : QueryLabel → Option ConcurrentQueries
  | .call limit => some { state with calls := state.calls ++ [.checkLimit limit] }
  | .go index valid =>
    match state.calls[index]? with
    | none => none
    | some phase =>
      let next := goOn state.counter valid phase
      some ⟨state.calls.set index next.1, next.2⟩

/-- The calls between their increase and their decrease. -/
def running : Nat := state.calls.count .execute

/-- The calls that have passed the check and not yet counted themselves. -/
def admitted : Nat :=
  state.calls.count .checkFrequence + state.calls.count .increase

/-- A check passes only when the calls that are running or on their way leave room. -/
def Guard : QueryLabel → Prop
  | .call _ => True
  | .go index _ => state.calls[index]? = some .checkConcurrent →
      state.counter < concurrentQueryCntLimit → state.running + state.admitted < concurrentQueryCntLimit

instance : (label : QueryLabel) → Decidable (Guard state label)
  | .call _ => .isTrue trivial
  | .go _ _ => inferInstanceAs (Decidable (_ → _ → _))

def Counted : Prop := state.counter = state.running

end

theorem count_set {calls : List CallPhase} {index : Nat} {phase : CallPhase}
    (found : calls[index]? = some phase) (next other : CallPhase) :
    (calls.set index next).count other + (if phase = other then 1 else 0) =
      calls.count other + if next = other then 1 else 0 := by
  obtain ⟨inside, same⟩ := List.getElem?_eq_some_iff.mp found
  have positive : phase = other → 0 < calls.count other := fun equal =>
    List.count_pos_iff.mpr (equal ▸ same ▸ List.getElem_mem inside)
  rw [List.count_set inside, same]
  simp only [beq_iff_eq]
  split
  · case isTrue equal =>
    have some := positive equal
    omega
  · omega

theorem goOn_counter (counter : Int) (valid : Bool) (phase : CallPhase) :
    (goOn counter valid phase).2 + phase.runs = counter + (goOn counter valid phase).1.runs := by
  cases phase with
  | checkLimit limit | checkConcurrent | checkFrequence =>
    rw [goOn]
    split <;> rfl
  | increase | execute => simp [goOn, CallPhase.runs]
  | checkCostTime | returned => rfl

theorem goOn_places (counter : Int) (valid : Bool) (phase : CallPhase) :
    (goOn counter valid phase).1.runs + (goOn counter valid phase).1.waits ≤
      phase.runs + phase.waits +
        if phase = .checkConcurrent ∧ counter < concurrentQueryCntLimit then 1 else 0 := by
  cases phase with
  | checkLimit limit =>
    rw [goOn]
    split <;> exact Nat.zero_le _
  | checkConcurrent =>
    rw [goOn]
    split
    · case isTrue room => simp [room, CallPhase.runs, CallPhase.waits]
    · exact Nat.zero_le _
  | checkFrequence =>
    rw [goOn]
    split <;> simp [CallPhase.runs, CallPhase.waits]
  | increase | execute | checkCostTime | returned => simp [goOn, CallPhase.runs, CallPhase.waits]

variable {state next : ConcurrentQueries}

theorem go_counts {index : Nat} {valid : Bool} (stepped : step state (.go index valid) = some next) :
    ∃ phase, state.calls[index]? = some phase ∧
      next.counter = (goOn state.counter valid phase).2 ∧
      next.running + phase.runs = state.running + (goOn state.counter valid phase).1.runs ∧
      next.admitted + phase.waits = state.admitted + (goOn state.counter valid phase).1.waits := by
  rw [step] at stepped
  split at stepped
  · cases stepped
  · case h_2 phase found =>
    cases stepped
    have checking := count_set found (goOn state.counter valid phase).1 .checkFrequence
    have increasing := count_set found (goOn state.counter valid phase).1 .increase
    refine ⟨phase, found, rfl, count_set found _ .execute, ?_⟩
    simp only [admitted, CallPhase.waits]
    omega

theorem call_counts {limit : Int} (stepped : step state (.call limit) = some next) :
    next.counter = state.counter ∧ next.running = state.running ∧ next.admitted = state.admitted := by
  cases stepped
  simp [running, admitted, List.count_append]

theorem step_counted {label : QueryLabel} (counted : Counted state) (stepped : step state label = some next) :
    Counted next := by
  rw [Counted] at counted ⊢
  cases label with
  | call limit =>
    obtain ⟨counter, running, -⟩ := call_counts stepped
    rw [counter, running, counted]
  | go index valid =>
    obtain ⟨phase, -, counter, running, -⟩ := go_counts stepped
    have moved := goOn_counter state.counter valid phase
    omega

theorem step_bounded {label : QueryLabel} (bounded : state.running + state.admitted ≤ concurrentQueryCntLimit)
    (guard : Guard state label) (stepped : step state label = some next) :
    next.running + next.admitted ≤ concurrentQueryCntLimit := by
  cases label with
  | call limit =>
    obtain ⟨-, running, admitted⟩ := call_counts stepped
    rw [running, admitted]
    exact bounded
  | go index valid =>
    obtain ⟨phase, found, -, running, admitted⟩ := go_counts stepped
    have places := goOn_places state.counter valid phase
    split at places
    · case isTrue through =>
      have room := guard (through.1 ▸ found) through.2
      omega
    · omega

theorem running_le_of_guarded {labels : List QueryLabel} {state : ConcurrentQueries}
    (guarded : Transition.Guarded step Guard initial labels)
    (ran : Transition.run step initial labels = some state) :
    state.running ≤ concurrentQueryCntLimit ∧
      ((∀ call ∈ state.calls, call = .returned) → state.counter = 0) := by
  have none : initial.running + initial.admitted ≤ concurrentQueryCntLimit := Nat.zero_le _
  have bounded : state.running + state.admitted ≤ concurrentQueryCntLimit :=
    Transition.run_guarded step_bounded none guarded ran
  have start : Counted initial := rfl
  have counted := Transition.run_invariant step_counted start ran
  refine ⟨by omega, fun returned => ?_⟩
  have idle : state.running = 0 := List.count_eq_zero.mpr fun member => nomatch returned _ member
  rw [counted, idle]
  rfl

/-- Every critical section of one call up to the query itself. -/
def upToExecute (index : Nat) : List QueryLabel := List.replicate 4 (.go index true)

/-- Five calls look at the counter before the first of them increases it. -/
theorem running_five : ∃ state, Transition.run step initial
      (List.replicate 5 (.call 10) ++
        (List.range 5).flatMap (fun index => [.go index true, .go index true]) ++
        (List.range 5).flatMap fun index => [.go index true, .go index true]) = some state ∧
    ¬ state.running ≤ concurrentQueryCntLimit :=
  ⟨_, rfl, by decide⟩

theorem running_le_of_guarded_two : ∃ state, Transition.run step initial
      ([.call 10, .call 10] ++ upToExecute 0 ++ upToExecute 1) = some state ∧
    state.running ≤ concurrentQueryCntLimit ∧
      ((∀ call ∈ state.calls, call = .returned) → state.counter = 0) := by
  have guarded : Transition.Guarded step Guard initial
      ([.call 10, .call 10] ++ upToExecute 0 ++ upToExecute 1) := by decide
  exact ⟨_, rfl, running_le_of_guarded guarded rfl⟩

end ConcurrentQueries
end Hiview.EventStore
