import Mathlib.Tactic.Common

/-!
# Programs over an allocator and a kernel

A program of the modelled kind has three effects: it asks an allocator for
memory and may be refused, it hands octets to the kernel, and it may run into
behaviour that C leaves undefined. `Prog P α` is a function of the platform's
state that returns a value and the next state, or a `Fault`. Two judgments are
used on it. `Ensures m Q` is total correctness from every platform state: no
fault, and the value satisfies `Q`. `Agree m m'` compares the values of two
programs whatever the platform states they start from; it is how two runs that
allocate differently are shown to compute the same thing.
-/

namespace Cpptrw.Lib

/-- Behaviour that C leaves undefined, and a loop that is not left. -/
inductive Fault where
  | nullPointer
  | outOfBounds
  | uninitialised
  | argument
  | diverged
  deriving DecidableEq, Repr

/-- What a program runs on. `allocate` answers whether a request of that many
octets was met; `writev` answers how many octets the kernel took, or `none`
for an error. -/
structure Platform where
  State : Type
  allocate : State → Nat → Bool × State
  rewind : State → State
  writev : State → List (List UInt8) → Option Nat × State

/-- Every request for memory is met. -/
def Platform.Succeeds (P : Platform) : Prop := ∀ s n, (P.allocate s n).1 = true

/-- The platform whose memory never runs out and whose kernel takes everything. -/
def Platform.ample : Platform where
  State := Unit
  allocate _ _ := (true, ())
  rewind _ := ()
  writev _ buffers := (some buffers.flatten.length, ())

theorem Platform.ample_succeeds : Platform.ample.Succeeds := fun _ _ => rfl

/-- The platform without any memory. -/
def Platform.exhausted : Platform := { Platform.ample with allocate := fun _ _ => (false, ()) }

/-- The platform that refuses requests by their number. -/
def Platform.refusing (refuses : Nat → Bool) : Platform where
  State := Nat
  allocate count _ := (!refuses count, count + 1)
  rewind count := count
  writev count buffers := (some buffers.flatten.length, count)

/-- Requests one behind the other, until one of them is refused. -/
def Platform.meets (P : Platform) : List Nat → P.State → Bool × P.State
  | [], s => (true, s)
  | n :: requests, s => if (P.allocate s n).1 then P.meets requests (P.allocate s n).2 else P.allocate s n

theorem Platform.meets_append (P : Platform) (requests requests' : List Nat) (s : P.State) :
    P.meets (requests ++ requests') s = if (P.meets requests s).1 then P.meets requests' (P.meets requests s).2 else P.meets requests s := by
  induction requests generalizing s with
  | nil => rfl
  | cons n requests ih =>
    rw [List.cons_append, meets, meets, ih]
    by_cases met : (P.allocate s n).1 <;> simp [met]

theorem Platform.Succeeds.meets {P : Platform} (all : P.Succeeds) (requests : List Nat) (s : P.State) : (P.meets requests s).1 = true := by
  induction requests generalizing s with
  | nil => rfl
  | cons n requests ih =>
    rw [Platform.meets, if_pos (all s n)]
    exact ih _

def Prog (P : Platform) (α : Type) : Type := P.State → Except Fault (α × P.State)

namespace Prog

variable {P : Platform} {α β γ σ ρ : Type}

instance : Monad (Prog P) where
  pure x := fun s => .ok (x, s)
  bind m f := fun s =>
    match m s with
    | .ok (x, s') => f x s'
    | .error e => .error e

theorem pure_apply (x : α) (s : P.State) : (pure x : Prog P α) s = .ok (x, s) := rfl

theorem bind_apply (m : Prog P α) (f : α → Prog P β) (s : P.State) :
    (m >>= f) s = match m s with
      | .ok (x, s') => f x s'
      | .error e => .error e := rfl

/-- What a run that returns went through. -/
theorem exists_of_run_bind {m : Prog P α} {f : α → Prog P β} {s s'' : P.State} {y : β} (run : (m >>= f) s = .ok (y, s'')) :
    ∃ x s', m s = .ok (x, s') ∧ f x s' = .ok (y, s'') := by
  rw [bind_apply] at run
  cases first : m s with
  | error e =>
    rw [first] at run
    cases run
  | ok r =>
    rw [first] at run
    exact ⟨r.1, r.2, rfl, run⟩

instance : LawfulMonad (Prog P) :=
  LawfulMonad.mk' _
    (fun m => by
      funext s
      change (match m s with | .ok (x, s') => Except.ok (x, s') | .error e => .error e) = m s
      cases m s <;> rfl)
    (fun _ _ => rfl)
    (fun m f g => by
      funext s
      simp only [bind_apply]
      cases m s <;> rfl)

/-- Undefined behaviour. -/
def fault (e : Fault) : Prog P α := fun _ => .error e

/-- A computation without platform effects. -/
def lift (r : Except Fault α) : Prog P α := fun s => r.map fun x => (x, s)

@[simp] theorem lift_ok (x : α) : (lift (.ok x) : Prog P α) = pure x := rfl

/-- Ask for `n` octets. -/
def allocate (n : Nat) : Prog P Bool := fun s => .ok (P.allocate s n)

theorem allocate_bind_apply (n : Nat) (f : Bool → Prog P α) (s : P.State) :
    (allocate n >>= f) s = f (P.allocate s n).1 (P.allocate s n).2 := rfl

/-- Give all memory back. -/
def rewind : Prog P Unit := fun s => .ok ((), P.rewind s)

def writev (buffers : List (List UInt8)) : Prog P (Option Nat) := fun s => .ok (P.writev s buffers)

/-! ## Total correctness -/

/-- From every platform state the program returns, with a value in `Q`. -/
def Ensures (m : Prog P α) (Q : α → Prop) : Prop :=
  ∀ s, ∃ x s', m s = .ok (x, s') ∧ Q x

/-- One run returns, with a value in `Q`. -/
def Yields (m : Prog P α) (s : P.State) (Q : α → Prop) : Prop := ∃ x s', m s = .ok (x, s') ∧ Q x

theorem Ensures.yields {m : Prog P α} {Q : α → Prop} (h : Ensures m Q) (s : P.State) : Yields m s Q := h s

/-- What is ensured holds of the value a run yields. -/
theorem Yields.and {m : Prog P α} {Q R : α → Prop} {s : P.State} (hr : Yields m s R) (h : Ensures m Q) :
    ∃ x, Q x ∧ R x := by
  obtain ⟨x, s', run, hx⟩ := hr
  obtain ⟨y, s'', run', hy⟩ := h s
  rw [run] at run'
  cases run'
  exact ⟨x, hy, hx⟩

theorem Ensures.pure {Q : α → Prop} {x : α} (h : Q x) : Ensures (pure x : Prog P α) Q :=
  fun s => ⟨x, s, rfl, h⟩

theorem Ensures.bind {m : Prog P α} {f : α → Prog P β} {Q : α → Prop} {R : β → Prop}
    (first : Ensures m Q) (next : ∀ x, Q x → Ensures (f x) R) : Ensures (m >>= f) R := by
  intro s
  obtain ⟨x, s', run, hx⟩ := first s
  obtain ⟨y, s'', run', hy⟩ := next x hx s'
  exact ⟨y, s'', by rw [bind_apply, run]; exact run', hy⟩

theorem Yields.and_ensures {m : Prog P α} {Q R : α → Prop} {s : P.State} (hr : Yields m s R) (h : Ensures m Q) :
    Yields m s fun x => R x ∧ Q x := by
  obtain ⟨x, s', run, hx⟩ := hr
  obtain ⟨y, s'', run', hy⟩ := h s
  rw [run] at run'
  cases run'
  exact ⟨x, s', run, hx, hy⟩

theorem yields_bind_iff {m : Prog P α} {f : α → Prog P β} {R : β → Prop} {s : P.State} :
    Yields (m >>= f) s R ↔ ∃ x s', m s = .ok (x, s') ∧ Yields (f x) s' R := by
  constructor
  · rintro ⟨y, s'', run, hy⟩
    obtain ⟨x, s', before, behind⟩ := exists_of_run_bind run
    exact ⟨x, s', before, y, s'', behind, hy⟩
  · rintro ⟨x, s', before, y, s'', behind, hy⟩
    exact ⟨y, s'', by rw [bind_apply, before]; exact behind, hy⟩

theorem Yields.bind {m : Prog P α} {f : α → Prog P β} {Q : α → Prop} {R : β → Prop} {s : P.State}
    (first : Yields m s Q) (next : ∀ x s', Q x → Yields (f x) s' R) : Yields (m >>= f) s R := by
  obtain ⟨x, s', run, hx⟩ := first
  obtain ⟨y, s'', run', hy⟩ := next x s' hx
  exact ⟨y, s'', by rw [bind_apply, run]; exact run', hy⟩

theorem Ensures.mono {m : Prog P α} {Q R : α → Prop} (h : Ensures m Q) (weaken : ∀ x, Q x → R x) :
    Ensures m R := by
  intro s
  obtain ⟨x, s', run, hx⟩ := h s
  exact ⟨x, s', run, weaken x hx⟩

/-- What is ensured holds of the value a run returned. -/
theorem Ensures.of_run {m : Prog P α} {Q : α → Prop} (h : Ensures m Q) {s s' : P.State} {x : α}
    (run : m s = .ok (x, s')) : Q x := by
  obtain ⟨y, s'', run', hy⟩ := h s
  rw [run] at run'
  cases run'
  exact hy

theorem Ensures.and {m : Prog P α} {Q R : α → Prop} (hq : Ensures m Q) (hr : Ensures m R) :
    Ensures m fun x => Q x ∧ R x := by
  intro s
  obtain ⟨x, s', run, hx⟩ := hq s
  exact ⟨x, s', run, hx, hr.of_run run⟩

theorem ensures_allocate (n : Nat) :
    Ensures (allocate n : Prog P Bool) fun met => met = false → ¬P.Succeeds := by
  intro s
  refine ⟨_, _, rfl, fun refused all => ?_⟩
  rw [all s n] at refused
  cases refused

/-- Both answers of the allocator; a refusal shows that memory can run out. -/
theorem Ensures.allocate {n : Nat} {f : Bool → Prog P β} {Q : β → Prop}
    (met : Ensures (f true) Q) (refused : ¬P.Succeeds → Ensures (f false) Q) :
    Ensures (Prog.allocate n >>= f) Q :=
  (ensures_allocate n).bind fun b h => by
    cases b with
    | true => exact met
    | false => exact refused (h rfl)

theorem ensures_rewind : Ensures (rewind : Prog P Unit) fun _ => True :=
  fun s => ⟨(), P.rewind s, rfl, trivial⟩

theorem ensures_writev (buffers : List (List UInt8)) :
    Ensures (writev buffers : Prog P (Option Nat)) fun _ => True :=
  fun _ => ⟨_, _, rfl, trivial⟩

/-- Whatever value a run returns is in `Q`; the run may also fault. -/
def Returns (m : Prog P α) (Q : α → Prop) : Prop := ∀ s x s', m s = .ok (x, s') → Q x

theorem Ensures.returns {m : Prog P α} {Q : α → Prop} (h : Ensures m Q) : Returns m Q :=
  fun _ _ _ run => h.of_run run

theorem Ensures.and_returns {m : Prog P α} {Q R : α → Prop} (hq : Ensures m Q) (hr : Returns m R) :
    Ensures m fun x => Q x ∧ R x := by
  intro s
  obtain ⟨x, s', run, hx⟩ := hq s
  exact ⟨x, s', run, hx, hr s x s' run⟩

theorem returns_pure {Q : α → Prop} {x : α} (h : Q x) : Returns (pure x : Prog P α) Q := by
  intro s y s' run
  cases run
  exact h

theorem Returns.bind {m : Prog P α} {f : α → Prog P β} {Q : α → Prop} {R : β → Prop}
    (first : Returns m Q) (next : ∀ x, Q x → Returns (f x) R) : Returns (m >>= f) R := by
  intro s y s'' run
  obtain ⟨x, s', before, run⟩ := exists_of_run_bind run
  exact next x (first s x s' before) s' y s'' run

theorem Returns.mono {m : Prog P α} {Q R : α → Prop} (h : Returns m Q) (weaken : ∀ x, Q x → R x) : Returns m R :=
  fun s x s' run => weaken x (h s x s' run)

theorem returns_any (m : Prog P α) : Returns m fun _ => True := fun _ _ _ _ => trivial

/-- Continuations need only be equal on the values that are returned. -/
theorem Returns.bind_congr {m : Prog P α} {f g : α → Prog P β} {Q : α → Prop} (h : Returns m Q)
    (same : ∀ x, Q x → f x = g x) : m >>= f = m >>= g := by
  funext s
  rw [bind_apply, bind_apply]
  cases hm : m s with
  | error e => rfl
  | ok r =>
    obtain ⟨x, s'⟩ := r
    exact congrFun (same x (h s x s' hm)) s'

/-! ## Agreement of values -/

/-- The value, or the fault, of a run. -/
def value (m : Prog P α) (s : P.State) : Except Fault α := (m s).map Prod.fst

theorem Yields.value {m : Prog P α} {s : P.State} {Q : α → Prop} (h : Yields m s Q) : ∃ x, m.value s = .ok x ∧ Q x := by
  obtain ⟨x, s', run, hx⟩ := h
  exact ⟨x, by rw [Prog.value, run]; rfl, hx⟩

theorem exists_run_of_value {m : Prog P α} {s : P.State} {x : α} (h : m.value s = .ok x) : ∃ s', m s = .ok (x, s') := by
  simp only [value] at h
  cases run : m s with
  | error e => rw [run] at h; cases h
  | ok r =>
    rw [run] at h
    cases h
    exact ⟨r.2, rfl⟩

/-- With ample memory one run tells what is ensured. -/
theorem ensures_of_value {m : Prog .ample α} {f : α → β} {y : β} (h : (m.value ()).map f = .ok y) :
    Ensures m fun x => f x = y := by
  intro s
  simp only [value] at h
  cases run : m () with
  | error e => rw [run] at h; cases h
  | ok r =>
    rw [run] at h
    exact ⟨r.1, r.2, run, Except.ok.inj h⟩

/-- The two programs have one value, from whatever platform states they start. -/
def Agree (m m' : Prog P α) : Prop := ∀ s s', m.value s = m'.value s'

theorem Agree.symm {m m' : Prog P α} (h : Agree m m') : Agree m' m := fun s s' => (h s' s).symm

theorem Agree.trans {m₁ m₂ m₃ : Prog P α} (h : Agree m₁ m₂) (h' : Agree m₂ m₃) : Agree m₁ m₃ :=
  fun s s' => (h s s).trans (h' s s')

theorem Agree.left {m m' : Prog P α} (h : Agree m m') : Agree m m := h.trans h.symm

theorem Agree.pure (x : α) : Agree (pure x : Prog P α) (pure x) := fun _ _ => rfl

theorem Agree.fault (e : Fault) : Agree (fault e : Prog P α) (fault e) := fun _ _ => rfl

theorem Agree.bind_of_returns {m m' : Prog P α} {f f' : α → Prog P β} {Q : α → Prop} (h : Agree m m')
    (values : Returns m Q) (next : ∀ x, Q x → Agree (f x) (f' x)) : Agree (m >>= f) (m' >>= f') := by
  intro s s'
  have same := h s s'
  simp only [value, bind_apply] at same ⊢
  cases hm : m s with
  | error e =>
    cases hm' : m' s' with
    | error e' => rw [hm, hm'] at same; cases same; rfl
    | ok r => rw [hm, hm'] at same; cases same
  | ok r =>
    cases hm' : m' s' with
    | error e' => rw [hm, hm'] at same; cases same
    | ok r' =>
      rw [hm, hm'] at same
      obtain ⟨x, t⟩ := r
      obtain ⟨x', t'⟩ := r'
      cases same
      exact next x (values s x t hm) t t'

theorem Agree.bind {m m' : Prog P α} {f f' : α → Prog P β} (h : Agree m m')
    (next : ∀ x, Agree (f x) (f' x)) : Agree (m >>= f) (m' >>= f') :=
  h.bind_of_returns (returns_any m) fun x _ => next x

theorem agree_allocate (all : P.Succeeds) (n : Nat) : Agree (allocate n : Prog P Bool) (Pure.pure true) := by
  intro s s'
  change Except.ok (P.allocate s n).1 = Except.ok true
  rw [all s n]

/-- The value does not depend on the platform state. -/
abbrev Steady (m : Prog P α) : Prop := Agree m m

/-- A step whose value is not used and that does not fault can be left out. -/
theorem Agree.drop {m : Prog P α} {k k' : Prog P β} (quiet : Ensures m fun _ => True) (h : Agree k k') :
    Agree (m >>= fun _ => k) k' := by
  intro s s'
  obtain ⟨x, t, run, -⟩ := quiet s
  simp only [value, bind_apply, run]
  exact h t s'

/-- Agreement carries what is ensured of one program to the other. -/
theorem Ensures.agree {m m' : Prog P α} {Q : α → Prop} (h : Ensures m Q) (same : Agree m m') :
    Ensures m' Q := by
  intro s
  obtain ⟨x, t, run, hx⟩ := h s
  have eq := same s s
  simp only [value, run] at eq
  cases hm : m' s with
  | error e => rw [hm] at eq; cases eq
  | ok r =>
    obtain ⟨y, t'⟩ := r
    rw [hm] at eq
    cases eq
    exact ⟨x, t', rfl, hx⟩

/-- Agreement carries what the values of one program are to the other. -/
theorem Returns.agree {m m' : Prog P α} {Q : α → Prop} (h : Returns m Q) (same : Agree m m') : Returns m' Q := by
  intro s x s' run
  have eq := same s s
  simp only [value, run] at eq
  cases hm : m s with
  | error e => rw [hm] at eq; cases eq
  | ok r =>
    obtain ⟨y, t⟩ := r
    rw [hm] at eq
    cases eq
    exact h s x t hm

/-- A program whose value does not depend on the platform state has one value. -/
theorem Steady.exists_value {m : Prog P α} {Q : α → Prop} (steady : Steady m) (h : Ensures m Q) (s : P.State) :
    ∃ x, Ensures m (· = x) ∧ Q x := by
  obtain ⟨x, s', run, hx⟩ := h s
  refine ⟨x, fun t => ?_, hx⟩
  obtain ⟨y, t', run', -⟩ := h t
  have eq := steady s t
  simp only [value, run, run'] at eq
  cases eq
  exact ⟨x, t', run', rfl⟩

/-- What is ensured of the whole is ensured of what follows a known value. -/
theorem Ensures.of_bind {m : Prog P α} {f : α → Prog P β} {x : α} {Q : β → Prop} (whole : Ensures (m >>= f) Q)
    (first : Ensures m (· = x)) (steady : Steady (f x)) : Ensures (f x) Q := by
  intro s
  obtain ⟨x', s', run, same⟩ := first s
  subst same
  obtain ⟨y, t, run', hy⟩ := whole s
  rw [bind_apply, run] at run'
  have eq := steady s s'
  simp only [value, run'] at eq
  cases hm : f x' s with
  | error e => rw [hm] at eq; cases eq
  | ok r =>
    rw [hm] at eq
    cases eq
    exact ⟨r.1, r.2, rfl, hy⟩

theorem Ensures.of_bind_pure {m : Prog P α} {g : α → β} {Q : β → Prop} (h : Ensures (m >>= fun x => Pure.pure (g x)) Q) :
    Ensures m fun x => Q (g x) := by
  intro s
  obtain ⟨y, t, run, hy⟩ := h s
  obtain ⟨x, s', before, run⟩ := exists_of_run_bind run
  cases run
  exact ⟨x, _, before, hy⟩

/-! ## Loops -/

/-- One pass through a loop's body: go round again, or leave the loop. -/
inductive Flow (σ ρ : Type) where
  | next (s : σ)
  | done (r : ρ)

/-- A loop, run for at most `fuel` passes; a loop that is still going then has
diverged as far as the model can tell. -/
def whileLoop (body : σ → Prog P (Flow σ ρ)) : Nat → σ → Prog P ρ
  | 0, _ => fault .diverged
  | fuel + 1, s => body s >>= fun
    | .next s' => whileLoop body fuel s'
    | .done r => pure r

/-- What a pass leads to, if the loop may still take `fuel` passes. -/
def Flow.Leads (body : σ → Prog P (Flow σ ρ)) (fuel : Nat) (Q : ρ → Prop) : Flow σ ρ → Prop
  | .next s => Ensures (whileLoop body fuel s) Q
  | .done r => Q r

theorem Flow.leads_done {body : σ → Prog P (Flow σ ρ)} {fuel : Nat} {Q : ρ → Prop} {r : ρ} :
    (Flow.done r : Flow σ ρ).Leads body fuel Q ↔ Q r := Iff.rfl

/-- One pass. -/
theorem ensures_pass {body : σ → Prog P (Flow σ ρ)} {Q : ρ → Prop} {s : σ} {fuel : Nat}
    (pass : Ensures (body s) (Flow.Leads body fuel Q)) : Ensures (whileLoop body (fuel + 1) s) Q := by
  refine pass.bind fun f hf => ?_
  cases f with
  | next s' => exact hf
  | done r => exact .pure hf

/-- **The loop rule.** An invariant, and a rank that every further pass lowers. -/
theorem ensures_whileLoop {body : σ → Prog P (Flow σ ρ)} {Q : ρ → Prop} (Inv : σ → Prop) (rank : σ → Nat)
    (step : ∀ s, Inv s → Ensures (body s) fun
      | .next s' => Inv s' ∧ rank s' < rank s
      | .done r => Q r) :
    ∀ fuel s, Inv s → rank s < fuel → Ensures (whileLoop body fuel s) Q := by
  intro fuel
  induction fuel with
  | zero => intro s _ h; omega
  | succ fuel ih =>
    intro s hs bound
    refine ensures_pass ((step s hs).mono fun f hf => ?_)
    cases f with
    | next s' => exact ih s' hf.1 (by have := hf.2; omega)
    | done r => exact hf

/-- An invariant of the values, whether or not the loop is left in time. -/
theorem returns_whileLoop {body : σ → Prog P (Flow σ ρ)} {Q : ρ → Prop} (Inv : σ → Prop)
    (step : ∀ s, Inv s → Returns (body s) fun
      | .next s' => Inv s'
      | .done r => Q r) :
    ∀ fuel s, Inv s → Returns (whileLoop body fuel s) Q := by
  intro fuel
  induction fuel with
  | zero =>
    intro s _ t x t' run
    cases run
  | succ fuel ih =>
    intro s hs
    refine (step s hs).bind fun f hf => ?_
    cases f with
    | next s' => exact ih s' hf
    | done r => exact returns_pure hf

/-- A change of the states that each pass respects, the whole loop respects. -/
theorem whileLoop_map {σ' ρ' : Type} {body : σ → Prog P (Flow σ ρ)} {body' : σ' → Prog P (Flow σ' ρ')} (f : σ → σ') (g : ρ → ρ')
    (pass : ∀ s, body' (f s) = body s >>= fun
      | .next s' => pure (.next (f s'))
      | .done r => pure (.done (g r))) (fuel : Nat) :
    ∀ s, whileLoop body' fuel (f s) = whileLoop body fuel s >>= fun r => pure (g r) := by
  induction fuel with
  | zero => exact fun s => rfl
  | succ fuel ih =>
    intro s
    simp only [whileLoop, pass, bind_assoc]
    refine congrArg _ (funext fun flow => ?_)
    cases flow with
    | next s' => simpa only [pure_bind] using ih s'
    | done r => simp only [pure_bind]

/-! ## Properties kept by sequencing -/

/-- A property of programs that holds of every computation and of asking for
memory, and that sequencing keeps. What is made of nothing else has it. -/
structure Compositional (P : Platform) (C : (α : Type) → Prog P α → Prop) : Prop where
  pure : ∀ {α : Type} (x : α), C α (pure x)
  fault : ∀ {α : Type} (e : Fault), C α (fault e)
  allocate : ∀ n : Nat, C Bool (allocate n)
  bind : ∀ {α β : Type} {m : Prog P α} {f : α → Prog P β}, C α m → (∀ x, C β (f x)) → C β (m >>= f)

namespace Compositional

variable {C : (α : Type) → Prog P α → Prop}

theorem lift (law : Compositional P C) (r : Except Fault α) : C α (lift r) := by
  cases r with
  | error e => exact law.fault e
  | ok x => exact law.pure x

/-- Both answers of the allocator. -/
theorem allocating (law : Compositional P C) {n : Nat} {f : Bool → Prog P α} (met : C α (f true))
    (refused : C α (f false)) : C α (Prog.allocate n >>= f) := by
  refine law.bind (law.allocate n) fun b => ?_
  cases b with
  | true => exact met
  | false => exact refused

theorem whileLoop (law : Compositional P C) {body : σ → Prog P (Flow σ ρ)} (step : ∀ s, C _ (body s)) :
    ∀ fuel s, C _ (whileLoop body fuel s) := by
  intro fuel
  induction fuel with
  | zero => exact fun s => law.fault _
  | succ fuel ih =>
    intro s
    refine law.bind (step s) fun f => ?_
    cases f with
    | next s' => exact ih s'
    | done r => exact law.pure r

end Compositional

/-- Where memory does not run out, computing does not depend on the platform state. -/
theorem compositional_steady (all : P.Succeeds) : Compositional P fun _ m => Steady m where
  pure := .pure
  fault := .fault
  allocate n := (agree_allocate all n).left
  bind := .bind

end Prog

end Cpptrw.Lib
