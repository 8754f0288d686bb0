import PyHermit.Lib.Wp

/-!
# Loops that end, and variables with a scope

`while` loops of the modelled code run here on a budget of rounds, so that they can be
evaluated. `wp_loop` is the rule for total correctness: an invariant, and a measure that
every round which goes on brings down. A budget above the measure is never used up, so the
loop ends by itself. `withLocal` is a mutable variable that lives as long as its block.
-/

namespace Prog

variable {ε σ ρ α β : Type}

/-! ## Loops -/

/-- What one round of a loop comes to: another round, or the end with a result. -/
inductive Round (σ α : Type) where
  | again (x : σ)
  | done (a : α)

/-- At most `budget` rounds from `x`; `spent` is the error of a budget that was too small. -/
def loop (spent : ε) (round : σ → EStateM ε ρ (Round σ α)) : Nat → σ → EStateM ε ρ α
  | 0, _ => throw spent
  | budget + 1, x => do
    match ← round x with
    | .again x' => loop spent round budget x'
    | .done a => pure a

variable {Q : α → ρ → Prop} {E : ε → ρ → Prop}

/-- A loop with invariant `I` and a measure that goes down ends within its budget. -/
theorem wp_loop {spent : ε} {round : σ → EStateM ε ρ (Round σ α)} (I : σ → ρ → Prop)
    (measure : σ → Nat) (hround : ∀ x r, I x r → wp (round x) (fun out r' => match out with
      | .again x' => I x' r' ∧ measure x' < measure x
      | .done a => Q a r') E r) :
    ∀ (budget : Nat) (x : σ) (r : ρ), I x r → measure x < budget →
      wp (loop spent round budget x) Q E r := by
  intro budget
  induction budget with
  | zero =>
    intro x r _ hmeasure
    exact absurd hmeasure (Nat.not_lt_zero _)
  | succ budget ih =>
    intro x r hx hmeasure
    refine wp_bind.mpr (wp_imp (hround x r hx) ?_)
    intro out r' hout
    cases out with
    | again x' => exact ih x' r' hout.1 (by omega)
    | done a => exact hout

/-! ## Scopes -/

/-- Run `m` with a variable of its own, which starts as `init`. -/
def withLocal (init : σ) (m : EStateM ε (σ × ρ) α) : EStateM ε ρ α := fun r =>
  match m (init, r) with
  | .ok a (_, r') => .ok a r'
  | .error e (_, r') => .error e r'

theorem wp_withLocal {init : σ} {m : EStateM ε (σ × ρ) α} {r : ρ} : wp (withLocal init m) Q E r ↔
      wp m (fun a s => Q a s.2) (fun e s => E e s.2) (init, r) := by
  unfold wp withLocal
  cases m (init, r) <;> rfl

/-- The variable of the innermost scope. -/
def innerLens : Lens (σ × ρ) σ where
  get := (·.1)
  put s x := (x, s.2)

/-- Everything outside the innermost scope. -/
def outerLens : Lens (σ × ρ) ρ where
  get := (·.2)
  put s r := (s.1, r)

/-- A program that leaves the variable of the scope alone. -/
def outside (m : EStateM ε ρ α) : EStateM ε (σ × ρ) α := zoom outerLens m

theorem wp_outside {m : EStateM ε ρ α} {Q : α → σ × ρ → Prop} {E : ε → σ × ρ → Prop} {s : σ × ρ} :
    wp (outside m) Q E s ↔ wp m (fun a r => Q a (s.1, r)) (fun e r => E e (s.1, r)) s.2 :=
  wp_zoom

end Prog
