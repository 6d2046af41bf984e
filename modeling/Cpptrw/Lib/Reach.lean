import Mathlib.Tactic.Common

/-!
# Reachable states

A system is given by its first states and its steps. What holds at first and is
kept by every step holds of every state that is reached.
-/

namespace Cpptrw.Lib

variable {σ : Type} {first : σ → Prop} {step : σ → σ → Prop}

/-- The states that a run can lead to. -/
inductive Reached (first : σ → Prop) (step : σ → σ → Prop) : σ → Prop
  | first {s : σ} (h : first s) : Reached first step s
  | step {s s' : σ} (before : Reached first step s) (h : step s s') : Reached first step s'

/-- **The invariant rule.** -/
theorem Reached.invariant {Inv : σ → Prop} (begins : ∀ s, first s → Inv s) (keeps : ∀ s s', Inv s → step s s' → Inv s')
    {s : σ} (h : Reached first step s) : Inv s := by
  induction h with
  | first h => exact begins _ h
  | step before h ih => exact keeps _ _ ih h

/-- More steps lead further. -/
theorem Reached.mono {step' : σ → σ → Prop} (more : ∀ s s', step s s' → step' s s') {s : σ} (h : Reached first step s) :
    Reached first step' s := by
  induction h with
  | first h => exact .first h
  | step before h ih => exact .step ih (more _ _ h)

end Cpptrw.Lib
