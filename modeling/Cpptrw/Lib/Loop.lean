import Cpptrw.Lib.Prog

/-!
# Loops that are left

`Confined F m Q` is total correctness up to the faults in `F`. Its loop rule is
that of `Ensures`, and what the rank of the rule says about the number of
passes is said by `Passed.count`, without a word about fuel.
-/

namespace Cpptrw.Lib.Prog

variable {P : Platform} {α β σ ρ : Type} {F : Fault → Prop} {Q : α → Prop}

/-- From every platform state the program returns, with a value in `Q`, or stops at a fault in `F`. -/
def Confined (F : Fault → Prop) (m : Prog P α) (Q : α → Prop) : Prop := ∀ s, Yields m s Q ∨ ∃ e, m s = .error e ∧ F e

theorem Ensures.confined {m : Prog P α} (h : Ensures m Q) : Confined F m Q := fun s => Or.inl (h s)

theorem Confined.returns {m : Prog P α} (h : Confined F m Q) : Returns m Q := by
  intro s x s' run
  rcases h s with ⟨y, t, run', hy⟩ | ⟨e, run', -⟩
  · cases run.symm.trans run'
    exact hy
  · cases run.symm.trans run'

theorem Confined.ne_error {m : Prog P α} (h : Confined F m Q) {e : Fault} (other : ¬F e) (s : P.State) : m s ≠ .error e := by
  intro run
  rcases h s with ⟨x, s', run', -⟩ | ⟨e', run', he⟩
  · cases run.symm.trans run'
  · cases run.symm.trans run'
    exact other he

theorem confined_pure {x : α} (h : Q x) : Confined F (pure x : Prog P α) Q := fun s => Or.inl ⟨x, s, rfl, h⟩

theorem confined_fault {e : Fault} (h : F e) : Confined F (fault e : Prog P α) Q := fun _ => Or.inr ⟨e, rfl, h⟩

theorem confined_lift {r : Except Fault α} (faults : ∀ e, r = .error e → F e) : Confined F (lift r : Prog P α) fun _ => True := by
  intro s
  cases r with
  | ok x => exact Or.inl ⟨x, s, rfl, trivial⟩
  | error e => exact Or.inr ⟨e, rfl, faults e rfl⟩

theorem Confined.bind {m : Prog P α} {f : α → Prog P β} {R : β → Prop} (first : Confined F m Q)
    (next : ∀ x, Q x → Confined F (f x) R) : Confined F (m >>= f) R := by
  intro s
  rcases first s with ⟨x, s', run, hx⟩ | ⟨e, run, he⟩
  · rcases next x hx s' with ⟨y, t, run', hy⟩ | ⟨e, run', he⟩
    · exact Or.inl ⟨y, t, by rw [bind_apply, run]; exact run', hy⟩
    · exact Or.inr ⟨e, by rw [bind_apply, run]; exact run', he⟩
  · exact Or.inr ⟨e, by rw [bind_apply, run], he⟩

/-- Both answers of the allocator. -/
theorem Confined.allocate {n : Nat} {f : Bool → Prog P α} (met : Confined F (f true) Q) (refused : Confined F (f false) Q) :
    Confined F (Prog.allocate n >>= f) Q := by
  refine ((ensures_allocate n).confined).bind fun b _ => ?_
  cases b with
  | true => exact met
  | false => exact refused

/-- What a pass that begins in `s` may lead to: a state of lower rank, or the end. -/
def Flow.Descends (Inv : σ → Prop) (rank : σ → Nat) (Q : ρ → Prop) (s : σ) : Flow σ ρ → Prop
  | .next s' => Inv s' ∧ rank s' < rank s
  | .done r => Q r

/-- **The loop rule** up to faults. -/
theorem confined_whileLoop {body : σ → Prog P (Flow σ ρ)} {Q : ρ → Prop} (Inv : σ → Prop) (rank : σ → Nat)
    (step : ∀ s, Inv s → Confined F (body s) (Flow.Descends Inv rank Q s)) :
    ∀ fuel s, Inv s → rank s < fuel → Confined F (whileLoop body fuel s) Q := by
  intro fuel
  induction fuel with
  | zero => exact fun s _ bound => absurd bound (Nat.not_lt_zero _)
  | succ fuel ih =>
    intro s hs bound
    refine (step s hs).bind fun flow led => ?_
    cases flow with
    | next s' =>
      obtain ⟨hs', lower⟩ := led
      exact ih s' hs' (by omega)
    | done r => exact confined_pure led

/-! ## Counting the passes -/

/-- So many passes lead from a state of the loop to another one. -/
inductive Passed (body : σ → Prog P (Flow σ ρ)) (s : σ) (t : P.State) : Nat → σ → P.State → Prop
  | none : Passed body s t 0 s t
  | pass {k : Nat} {s' s'' : σ} {t' t'' : P.State} (before : Passed body s t k s' t')
      (run : body s' t' = .ok (.next s'', t'')) : Passed body s t (k + 1) s'' t''

/-- Every pass lowers the rank, and the invariant holds wherever a pass begins. -/
theorem Passed.count {body : σ → Prog P (Flow σ ρ)} {Q : ρ → Prop} {Inv : σ → Prop} {rank : σ → Nat}
    (step : ∀ s, Inv s → Confined F (body s) (Flow.Descends Inv rank Q s)) {s s' : σ} {t t' : P.State} {k : Nat}
    (h : Passed body s t k s' t') (begins : Inv s) : Inv s' ∧ k + rank s' ≤ rank s := by
  induction h with
  | none => exact ⟨begins, Nat.zero_add _ ▸ Nat.le_refl _⟩
  | @pass k s' s'' t' t'' before run ih =>
    obtain ⟨here, count⟩ := ih
    obtain ⟨there, lower⟩ : Inv s'' ∧ rank s'' < rank s' := (step s' here).returns t' _ t'' run
    exact ⟨there, by omega⟩

theorem passed_succ_iff {body : σ → Prog P (Flow σ ρ)} {s s'' : σ} {t t'' : P.State} {k : Nat} :
    Passed body s t (k + 1) s'' t'' ↔ ∃ s' t', body s t = .ok (.next s', t') ∧ Passed body s' t' k s'' t'' := by
  constructor
  · intro h
    generalize more : k + 1 = n at h
    induction h generalizing k with
    | none => cases more
    | @pass n s' s'' t' t'' before run ih =>
      obtain rfl : k = n := Nat.succ.inj more
      cases k with
      | zero =>
        cases before
        exact ⟨_, _, run, .none⟩
      | succ k =>
        obtain ⟨s₁, t₁, first, rest⟩ := ih rfl
        exact ⟨s₁, t₁, first, rest.pass run⟩
  · rintro ⟨s', t', run, rest⟩
    induction rest with
    | none => exact .pass .none run
    | pass _ run' ih => exact .pass ih run'

/-- **A loop that descends returns** if and only if each of its passes does. -/
theorem yields_whileLoop_iff {body : σ → Prog P (Flow σ ρ)} {Q : ρ → Prop} {Inv : σ → Prop} {rank : σ → Nat}
    (step : ∀ s, Inv s → Confined F (body s) (Flow.Descends Inv rank Q s)) :
    ∀ fuel s t, Inv s → rank s < fuel →
      (Yields (whileLoop body fuel s) t (fun _ => True) ↔
        ∀ k s' t', Passed body s t k s' t' → Yields (body s') t' fun _ => True) := by
  intro fuel
  induction fuel with
  | zero => exact fun s _ _ bound => absurd bound (Nat.not_lt_zero _)
  | succ fuel ih =>
    intro s t hs bound
    have next : ∀ {s' t'}, body s t = .ok (.next s', t') → Inv s' ∧ rank s' < fuel := by
      intro s' t' run
      obtain ⟨hs', lower⟩ : Inv s' ∧ rank s' < rank s := (step s hs).returns t _ t' run
      exact ⟨hs', by omega⟩
    rw [whileLoop, yields_bind_iff]
    constructor
    · rintro ⟨flow, t', run, more⟩ k s'' t'' passed
      cases k with
      | zero =>
        cases passed
        exact ⟨flow, t', run, trivial⟩
      | succ k =>
        obtain ⟨s', t', run', rest⟩ := passed_succ_iff.mp passed
        cases run.symm.trans run'
        obtain ⟨hs', lower⟩ := next run
        exact (ih s' _ hs' lower).mp more k s'' t'' rest
    · intro all
      obtain ⟨flow, t', run, -⟩ := all 0 s t .none
      refine ⟨flow, t', run, ?_⟩
      cases flow with
      | done r => exact ⟨r, t', rfl, trivial⟩
      | next s' =>
        obtain ⟨hs', lower⟩ := next run
        exact (ih s' t' hs' lower).mpr fun k s'' t'' rest => all (k + 1) s'' t'' (passed_succ_iff.mpr ⟨s', t', run, rest⟩)

end Cpptrw.Lib.Prog
