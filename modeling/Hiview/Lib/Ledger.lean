import Hiview.Lib.Transition
import Mathlib.Algebra.Order.Monoid.Canonical.Defs

/-! Balance sheets of runs. A step takes something in and may lose something; what the
states hold, with everything lost, is what has come in. Nothing is lost exactly when no
step loses anything, since a loss is never made up for. -/
namespace Hiview.Transition
variable {State Label Amount : Type} {step : State → Label → Option State}

def total [Zero Amount] [Add Amount] (step : State → Label → Option State) (amount : State → Label → Amount) :
    State → List Label → Amount
  | _, [] => 0
  | state, label :: rest =>
    match step state label with
    | none => 0
    | some next => amount state label + total step amount next rest

section Balance
variable [AddCommMonoid Amount] {held : State → Amount} {taken lost : State → Label → Amount} {Inv : State → Prop}

theorem total_cons (stepped : step state label = some next) (amount : State → Label → Amount) (rest : List Label) :
    total step amount state (label :: rest) = amount state label + total step amount next rest := by
  rw [total, stepped]

variable {labels : List Label}

variable (preserved : ∀ {state label next}, Inv state → step state label = some next → Inv next)
include preserved

theorem run_balance
    (balanced : ∀ {state label next}, Inv state → step state label = some next →
      held next + lost state label = held state + taken state label) (initial : Inv state)
    (ran : run step state labels = some final) :
    held final + total step lost state labels = held state + total step taken state labels := by
  induction labels generalizing state with
  | nil =>
    cases ran
    rfl
  | cons label rest ih =>
    obtain ⟨next, stepped, following⟩ := run_cons ran
    have here := balanced initial stepped
    have later := ih (preserved initial stepped) following
    rw [total_cons stepped, total_cons stepped, add_left_comm, later, ← add_assoc, ← add_assoc, ← here,
      add_comm (lost state label)]

variable [PartialOrder Amount] [CanonicallyOrderedAdd Amount] {guard : State → Label → Prop}

theorem total_eq_zero_iff
    (exactly : ∀ {state label next}, Inv state → step state label = some next →
      (lost state label = 0 ↔ guard state label)) (initial : Inv state) (ran : run step state labels = some final) :
    total step lost state labels = 0 ↔ Guarded step guard state labels := by
  induction labels generalizing state with
  | nil => simp [total, Guarded]
  | cons label rest ih =>
    obtain ⟨next, stepped, following⟩ := run_cons ran
    rw [total_cons stepped, add_eq_zero, exactly initial stepped, ih (preserved initial stepped) following]
    constructor
    · rintro ⟨met, later⟩
      refine ⟨met, ?_⟩
      intro other enabled
      rwa [Option.some_inj.mp (enabled.symm.trans stepped)]
    · intro guarded
      exact ⟨guarded.1, guarded.2 next stepped⟩

theorem held_all_iff [IsLeftCancelAdd Amount]
    (balanced : ∀ {state label next}, Inv state → step state label = some next →
      held next + lost state label = held state + taken state label)
    (exactly : ∀ {state label next}, Inv state → step state label = some next →
      (lost state label = 0 ↔ guard state label)) (initial : Inv state) (ran : run step state labels = some final) :
    held final = held state + total step taken state labels ↔ Guarded step guard state labels := by
  rw [← total_eq_zero_iff preserved exactly initial ran, ← run_balance preserved balanced initial ran]
  exact left_eq_add

end Balance
end Hiview.Transition
