import Mathlib.Data.Nat.Bitwise

/-! Runs of a partial step function over labels, and the two ways in which this
development reasons about them: an invariant of every step, and an invariant of
the steps that meet a guard. -/
namespace Hiview.Transition
variable {State Label : Type}

/-- The state after the labels, if every step is enabled. -/
def run (step : State → Label → Option State) : State → List Label → Option State
  | state, [] => some state
  | state, label :: rest => (step state label).bind fun next => run step next rest

variable {step : State → Label → Option State}

theorem run_cons (ran : run step state (label :: rest) = some final) :
    ∃ next, step state label = some next ∧ run step next rest = some final :=
  Option.bind_eq_some_iff.mp ran

theorem run_append (ran : run step state first = some middle) (second : List Label) :
    run step state (first ++ second) = run step middle second := by
  induction first generalizing state with
  | nil =>
    cases ran
    rfl
  | cons label rest ih =>
    obtain ⟨next, stepped, following⟩ := run_cons ran
    rw [List.cons_append, run, stepped]
    exact ih following

theorem run_invariant {Inv : State → Prop}
    (preserved : ∀ {state label next}, Inv state → step state label = some next → Inv next) (initial : Inv state)
    (ran : run step state labels = some final) : Inv final := by
  induction labels generalizing state with
  | nil =>
    cases ran
    exact initial
  | cons label rest ih =>
    obtain ⟨next, first, following⟩ := run_cons ran
    exact ih (preserved initial first) following

/-- Every step of a run meets the guard in the state it starts from. -/
def Guarded (step : State → Label → Option State) (guard : State → Label → Prop) :
    State → List Label → Prop
  | _, [] => True
  | state, label :: rest =>
    guard state label ∧ ∀ next, step state label = some next → Guarded step guard next rest

instance decidableGuarded (step : State → Label → Option State) (guard : State → Label → Prop)
    [∀ state label, Decidable (guard state label)] :
    (state : State) → (labels : List Label) → Decidable (Guarded step guard state labels)
  | _, [] => .isTrue trivial
  | state, label :: rest =>
    match first : step state label with
    | none => decidable_of_iff (guard state label)
        ⟨fun met => ⟨met, fun _ enabled => nomatch first.symm.trans enabled⟩, And.left⟩
    | some next =>
      let _ := decidableGuarded step guard next rest
      decidable_of_iff (guard state label ∧ Guarded step guard next rest)
        ⟨fun both => ⟨both.1, fun _ enabled => Option.some.inj (first.symm.trans enabled) ▸ both.2⟩,
          fun both => ⟨both.1, both.2 next first⟩⟩

variable {guard : State → Label → Prop}

theorem run_guarded {Inv : State → Prop}
    (preserved : ∀ {state label next}, Inv state → guard state label → step state label = some next → Inv next)
    {state final : State} {labels : List Label} (initial : Inv state) (guarded : Guarded step guard state labels)
    (ran : run step state labels = some final) : Inv final := by
  induction labels generalizing state with
  | nil =>
    cases ran
    exact initial
  | cons label rest ih =>
    obtain ⟨next, first, following⟩ := run_cons ran
    exact ih (preserved initial guarded.1 first) (guarded.2 next first) following

theorem guarded_append (guarded : Guarded step guard state (first ++ second))
    (ran : run step state first = some middle) : Guarded step guard middle second := by
  induction first generalizing state with
  | nil =>
    cases ran
    exact guarded
  | cons label rest ih =>
    obtain ⟨next, stepped, following⟩ := run_cons ran
    exact ih (guarded.2 next stepped) following

theorem run_unguarded {Inv Bad : State → Prop}
    (preserved : ∀ {state label next}, Inv state → step state label = some next → Inv next)
    (breaks : ∀ {state label next}, Inv state → ¬ guard state label → step state label = some next → Bad next)
    (stays : ∀ {state label next}, Bad state → step state label = some next → Bad next) (initial : Inv state)
    (unguarded : ¬ Guarded step guard state labels) (ran : run step state labels = some final) : Bad final := by
  induction labels generalizing state with
  | nil => exact absurd trivial unguarded
  | cons label rest ih =>
    obtain ⟨next, first, following⟩ := run_cons ran
    by_cases met : guard state label
    · apply ih (preserved initial first) _ following
      intro guarded
      refine unguarded ⟨met, ?_⟩
      intro other enabled
      rwa [Option.some_inj.mp (enabled.symm.trans first)]
    · exact run_invariant stays (breaks initial met first) following

/-- When the guard says exactly which steps from a state of the invariant lead to good
states, the guarded runs are those in which every state reached is good. -/
theorem guarded_iff {Inv Good : State → Prop}
    (exactly : ∀ {state label}, Inv state → (guard state label ↔ ∀ next, step state label = some next → Good next))
    (preserved : ∀ {state label next}, Inv state → step state label = some next → Good next → Inv next)
    (good : ∀ {state}, Inv state → Good state) (initial : Inv state) :
    Guarded step guard state labels ↔
      ∀ taken rest final, labels = taken ++ rest → run step state taken = some final → Good final := by
  constructor
  · intro guarded taken rest final split ran
    induction taken generalizing state labels with
    | nil =>
      cases ran
      exact good initial
    | cons label taken ih =>
      obtain ⟨next, first, following⟩ := run_cons ran
      subst split
      have reached := (exactly initial).mp guarded.1 next first
      exact ih (preserved initial first reached) (guarded.2 next first) rfl following
  · intro always
    induction labels generalizing state with
    | nil => trivial
    | cons label labels ih =>
      have reached : ∀ next, step state label = some next → Good next := fun next first =>
        always [label] labels next rfl (by simp [run, first])
      refine ⟨(exactly initial).mpr reached, fun next first => ?_⟩
      refine ih (preserved initial first (reached next first)) fun taken rest final split ran => ?_
      exact always (label :: taken) rest final (congrArg (label :: ·) split) (by simp [run, first, ran])

/-- When the guard says exactly which steps keep two systems related, the guarded runs are
those in which the other system follows with related states. -/
theorem guarded_iff_related {Abstract : Type} {abstractStep : Abstract → Label → Option Abstract}
    {Related : State → Abstract → Prop}
    (enabled : ∀ {state abstract label next}, Related state abstract → step state label = some next →
      ∃ later, abstractStep abstract label = some later)
    (exactly : ∀ {state abstract label}, Related state abstract → (guard state label ↔
      ∀ next later, step state label = some next → abstractStep abstract label = some later → Related next later))
    {abstract : Abstract} (initial : Related state abstract) :
    Guarded step guard state labels ↔
      ∀ taken rest final, labels = taken ++ rest → run step state taken = some final →
        ∃ last, run abstractStep abstract taken = some last ∧ Related final last := by
  constructor
  · intro guarded taken rest final split ran
    induction taken generalizing state abstract labels with
    | nil =>
      cases ran
      exact ⟨abstract, rfl, initial⟩
    | cons label taken ih =>
      obtain ⟨next, first, following⟩ := run_cons ran
      subst split
      obtain ⟨later, moved⟩ := enabled initial first
      have reached := (exactly initial).mp guarded.1 next later first moved
      obtain ⟨last, ended, related⟩ := ih reached (guarded.2 next first) rfl following
      exact ⟨last, by rw [run, moved]; exact ended, related⟩
  · intro always
    induction labels generalizing state abstract with
    | nil => trivial
    | cons label labels ih =>
      have reached {next : State} {later : Abstract} (first : step state label = some next)
          (moved : abstractStep abstract label = some later) : Related next later := by
        obtain ⟨last, ended, related⟩ := always [label] labels next rfl (by simp [run, first])
        rw [run, moved] at ended
        rwa [Option.some_inj.mp ended]
      refine ⟨(exactly initial).mpr fun next later first moved => reached first moved, ?_⟩
      intro next first
      obtain ⟨later, moved⟩ := enabled initial first
      refine ih (reached first moved) fun taken rest final split ran => ?_
      obtain ⟨last, ended, related⟩ := always (label :: taken) rest final
        (congrArg (label :: ·) split) (by simp [run, first, ran])
      rw [run, moved] at ended
      exact ⟨last, ended, related⟩

end Hiview.Transition
