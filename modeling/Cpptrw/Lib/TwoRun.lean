import Cpptrw.Lib.Prog

/-!
# Two runs of one program

A machine is a program over a state; what it did to the state before a fault is
kept. Two states are alike if they differ only where a program must not look.
`Runs m s post` says that from `s`, and from every state alike, `m` has one
result and leaves states that are alike again, and that a value it returns from
`s` is in `post` with the state. That nothing is looked at too early is thus
proved together with what the program leaves behind, by one rule for each way a
program is put together.
-/

namespace Cpptrw.Lib

def Machine (σ α : Type) : Type := σ → Except Fault α × σ

namespace Machine

variable {σ α β γ : Type}

instance : Monad (Machine σ) where
  pure x := fun s => (.ok x, s)
  bind m f := fun s =>
    match m s with
    | (.ok x, s') => f x s'
    | (.error e, s') => (.error e, s')

theorem bind_apply (m : Machine σ α) (f : α → Machine σ β) (s : σ) :
    (m >>= f) s = match m s with
      | (.ok x, s') => f x s'
      | (.error e, s') => (.error e, s') := rfl

/-- What a run that returns went through. -/
theorem exists_of_run_bind {m : Machine σ α} {f : α → Machine σ β} {s s'' : σ} {y : β} (run : (m >>= f) s = (.ok y, s'')) :
    ∃ x s', m s = (.ok x, s') ∧ f x s' = (.ok y, s'') := by
  rw [bind_apply] at run
  cases first : m s with
  | mk result s' =>
    rw [first] at run
    cases result with
    | error e => cases run
    | ok x => exact ⟨x, s', rfl, run⟩

/-- Undefined behaviour. -/
def fault (e : Fault) : Machine σ α := fun s => (.error e, s)

/-- A computation that does not touch the state. -/
def lift (r : Except Fault α) : Machine σ α := fun s => (r, s)

/-- `if` without `else`. -/
def when (c : Prop) [Decidable c] (m : Machine σ Unit) : Machine σ Unit := if c then m else pure ()

/-- A loop: a pass leaves it or goes on. -/
def whileLoop (step : α → Machine σ (Prog.Flow α β)) : Nat → α → Machine σ β
  | 0, _ => fault .diverged
  | fuel + 1, x => step x >>= fun
    | .done y => pure y
    | .next x => whileLoop step fuel x

variable {alike : σ → σ → Prop}

/-- One result from `s` and from all states alike, and `post` of it. -/
def Runs (alike : σ → σ → Prop) (m : Machine σ α) (s : σ) (post : α → σ → Prop) : Prop :=
  ∀ t, alike s t → (m s).1 = (m t).1 ∧ alike (m s).2 (m t).2 ∧ ∀ x, (m s).1 = .ok x → post x (m s).2

variable {m : Machine σ α} {f : α → Machine σ β} {s : σ} {post mid : α → σ → Prop} {last : β → σ → Prop}

theorem Runs.pure {x : α} (h : post x s) : Runs alike (pure x : Machine σ α) s post := by
  intro t like
  refine ⟨rfl, like, fun y same => ?_⟩
  cases same
  exact h

theorem Runs.fault (e : Fault) : Runs alike (fault e : Machine σ α) s post := by
  intro t like
  exact ⟨rfl, like, fun y same => by cases same⟩

theorem Runs.lift {r : Except Fault α} (h : ∀ x, r = .ok x → post x s) : Runs alike (lift r : Machine σ α) s post := by
  intro t like
  exact ⟨rfl, like, h⟩

theorem Runs.bind (first : Runs alike m s mid) (next : ∀ x s', mid x s' → Runs alike (f x) s' last) :
    Runs alike (m >>= f) s last := by
  intro t like
  obtain ⟨same, like', after⟩ := first t like
  rw [bind_apply, bind_apply]
  generalize m s = r at same like' after
  generalize m t = r' at same like'
  obtain ⟨r, s'⟩ := r
  obtain ⟨r', t'⟩ := r'
  dsimp only at same like' after
  subst same
  cases r with
  | error e => exact ⟨rfl, like', fun y same => by cases same⟩
  | ok x => exact next x s' (after x rfl) t' like'

theorem Runs.mono {post' : α → σ → Prop} (h : Runs alike m s post) (weaken : ∀ x s', post x s' → post' x s') :
    Runs alike m s post' := by
  intro t like
  obtain ⟨same, like', after⟩ := h t like
  exact ⟨same, like', fun x here => weaken x _ (after x here)⟩

end Machine

end Cpptrw.Lib
