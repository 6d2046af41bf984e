import Cpptrw.Lib.TwoRun
import Mathlib.Data.Set.Insert

/-!
# Programs in memory

A machine computes in its memory what a program computes with values. A layout
says which objects a state holds. Some are owned, so that nothing else reaches
into them and they may change; the others are known, and stay what they are.
`Realizes m n` says that wherever the program `n` returns, the machine `m` does,
with the same effect on the platform and with a related result. A judgment names
the objects that it needs and keeps all others: the frame is part of its meaning.
-/

namespace Cpptrw.Lib

instance {σ : Type} : LawfulMonad (Machine σ) :=
  LawfulMonad.mk' _
    (fun m => by
      funext s
      change (match m s with | (.ok x, s') => (Except.ok x, s') | (.error e, s') => (.error e, s')) = m s
      generalize m s = r
      obtain ⟨_ | x, s'⟩ := r <;> rfl)
    (fun _ _ => rfl)
    (fun m f g => by
      funext s
      simp only [Machine.bind_apply]
      generalize m s = r
      obtain ⟨_ | x, s'⟩ := r <;> rfl)

/-- How objects lie in a state. Owned ones can be put in any order, given up, or made known for good. -/
structure Layout (σ ι : Type) (P : Platform) where
  platform : σ → P.State
  Holds : Set ι → List ι → σ → Prop
  perm : ∀ {known owned owned' s}, owned.Perm owned' → Holds known owned s → Holds known owned' s
  forget : ∀ {known owned rest s}, Holds known (owned ++ rest) s → Holds known owned s
  share : ∀ {known object owned s}, Holds known (object :: owned) s → Holds (insert object known) owned s
  unlearn : ∀ {known known' owned s}, known ⊆ known' → Holds known' owned s → Holds known owned s

namespace Layout

variable {σ ι : Type} {P : Platform} {L : Layout σ ι P} {known known' known'' : Set ι} {owned owned' owned'' rest some some' : List ι}

/-- What is held in a state, held in another way. -/
structure Leads (L : Layout σ ι P) (known : Set ι) (owned : List ι) (known' : Set ι) (owned' : List ι) : Prop where
  grows : known ⊆ known'
  holds : ∀ s frame, L.Holds known (owned ++ frame) s → L.Holds known' (owned' ++ frame) s

namespace Leads

theorem trans (h : L.Leads known owned known' owned') (h' : L.Leads known' owned' known'' owned'') : L.Leads known owned known'' owned'' :=
  ⟨h.grows.trans h'.grows, fun s frame here => h'.holds s frame (h.holds s frame here)⟩

theorem of_perm (same : owned.Perm owned') : L.Leads known owned known owned' :=
  ⟨subset_rfl, fun _ frame => L.perm (same.append_right frame)⟩

theorem forget (owned rest : List ι) : L.Leads known (owned ++ rest) known owned := by
  refine ⟨subset_rfl, fun s frame here => ?_⟩
  have last : (owned ++ rest ++ frame).Perm (owned ++ frame ++ rest) := by
    rw [List.append_assoc, List.append_assoc]
    exact List.perm_append_comm.append_left owned
  exact L.forget (L.perm last here)

/-- What is not needed any more is given up. -/
theorem drop (kept rest : List ι) (whole : owned.Perm (kept ++ rest)) : L.Leads known owned known kept :=
  (of_perm whole).trans (forget kept rest)

theorem share (objects owned : List ι) : L.Leads known (objects ++ owned) (known ∪ {object | object ∈ objects}) owned := by
  induction objects generalizing known with
  | nil => exact ⟨Set.subset_union_left, fun s frame here => by simpa using here⟩
  | cons object objects ih =>
    have one : L.Leads known (object :: objects ++ owned) (insert object known) (objects ++ owned) :=
      ⟨Set.subset_insert _ _, fun s frame here => L.share here⟩
    have all : insert object known ∪ {other | other ∈ objects} = known ∪ {other | other ∈ object :: objects} := by
      ext other
      simp only [Set.mem_union, Set.mem_insert_iff, Set.mem_ofPred_eq, List.mem_cons]
      tauto
    exact all ▸ one.trans ih

end Leads

/-! ## What a machine does alone -/

variable {α β γ δ : Type} {m : Machine σ α} {f : α → Machine σ β} {x : α} {y : β}

/-- The machine looks at what is there, and what it finds is determined by that. -/
def Looks (L : Layout σ ι P) (known : Set ι) (owned : List ι) (m : Machine σ α) (x : α) : Prop :=
  ∀ s frame, L.Holds known (owned ++ frame) s → m s = (.ok x, s)

/-- The machine changes what it owns, and nothing on the platform. -/
def Updates (L : Layout σ ι P) (known : Set ι) (owned : List ι) (m : Machine σ Unit) (owned' : List ι) : Prop :=
  ∀ s frame, L.Holds known (owned ++ frame) s → ∃ s', m s = (.ok (), s') ∧ L.platform s' = L.platform s ∧ L.Holds known (owned' ++ frame) s'

theorem Looks.pure : L.Looks known owned (Pure.pure x : Machine σ α) x := fun _ _ _ => rfl

theorem Looks.bind (first : L.Looks known owned m x) (next : L.Looks known owned (f x) y) : L.Looks known owned (m >>= f) y := by
  intro s frame here
  rw [Machine.bind_apply, first s frame here]
  exact next s frame here

/-- More that is known or owned changes nothing. -/
theorem Looks.weaken (h : L.Looks known some m x) (grows : known ⊆ known') (whole : owned.Perm (some ++ rest)) :
    L.Looks known' owned m x := by
  intro s frame here
  have here := L.unlearn grows (L.perm (whole.append_right frame) here)
  rw [List.append_assoc] at here
  exact h s (rest ++ frame) here

theorem Updates.part {m : Machine σ Unit} (h : L.Updates known some m some') (whole : owned.Perm (some ++ rest)) :
    L.Updates known owned m (some' ++ rest) := by
  intro s frame here
  have here := L.perm (whole.append_right frame) here
  rw [List.append_assoc] at here ⊢
  exact h s (rest ++ frame) here

theorem Updates.perm {m : Machine σ Unit} (h : L.Updates known owned m owned') (same : owned'.Perm owned'') : L.Updates known owned m owned'' := by
  intro s frame here
  obtain ⟨s', step, kept, here'⟩ := h s frame here
  exact ⟨s', step, kept, L.perm (same.append_right frame) here'⟩

theorem Updates.look {m : Machine σ α} {f : α → Machine σ Unit} (first : L.Looks known owned m x)
    (next : L.Updates known owned (f x) owned') : L.Updates known owned (m >>= f) owned' := by
  intro s frame here
  rw [Machine.bind_apply, first s frame here]
  exact next s frame here

theorem Updates.bind {m : Machine σ Unit} {f : Unit → Machine σ Unit} (first : L.Updates known owned m owned')
    (next : L.Updates known owned' (f ()) owned'') : L.Updates known owned (m >>= f) owned'' := by
  intro s frame here
  obtain ⟨s', step, same, here'⟩ := first s frame here
  obtain ⟨s'', step', same', here''⟩ := next s' frame here'
  refine ⟨s'', ?_, same'.trans same, here''⟩
  rw [Machine.bind_apply, step]
  exact step'

/-! ## A machine and a program -/

/-- Where the program returns a value that is `fit`, the machine returns too. Their effects on the
platform are the same, and their results, with what is held then, are in `post`. -/
def Realizes (L : Layout σ ι P) (known : Set ι) (owned : List ι) (m : Machine σ α) (n : Prog P β) (fit : β → Prop)
    (post : Set ι → List ι → α → β → Prop) : Prop :=
  ∀ s frame y t, L.Holds known (owned ++ frame) s → n (L.platform s) = .ok (y, t) → fit y →
    ∃ x s' known' owned', m s = (.ok x, s') ∧ L.platform s' = t ∧ known ⊆ known' ∧ L.Holds known' (owned' ++ frame) s' ∧
      post known' owned' x y

/-- Any value. -/
abbrev Any : β → Prop := fun _ => True

/-- Behind a pass of a loop: the state is fit, or the result is. -/
def Fitting (fit : β → Prop) (fits : δ → Prop) : Prog.Flow β δ → Prop
  | .next y => fit y
  | .done z => fits z

/-- Behind a pass of both loops. -/
def Pass (inv : Set ι → List ι → α → β → Prop) (last : Set ι → List ι → γ → δ → Prop) (known : Set ι) (owned : List ι) :
    Prog.Flow α γ → Prog.Flow β δ → Prop
  | .next x, .next y => inv known owned x y
  | .done x, .done y => last known owned x y
  | _, _ => False

namespace Realizes

variable {n : Prog P β} {g : β → Prog P δ} {f : α → Machine σ γ} {fit : β → Prop} {fits : δ → Prop}
  {post mid : Set ι → List ι → α → β → Prop} {last : Set ι → List ι → γ → δ → Prop}

theorem pure (h : post known owned x y) : L.Realizes known owned (Pure.pure x) (Pure.pure y) fit post := by
  intro s frame y' t here run _
  cases run
  exact ⟨x, s, known, owned, rfl, rfl, subset_rfl, here, h⟩

/-- The value is there, so that it may be taken to be fit. -/
theorem assumeFit (h : fit y → L.Realizes known owned m (Pure.pure y) fit post) : L.Realizes known owned m (Pure.pure y) fit post := by
  intro s frame y' t here run fine
  cases run
  exact h fine s frame y _ here rfl fine

/-- What follows from what is held may be used. -/
theorem of_held {φ : Prop} (fact : ∀ s frame, L.Holds known (owned ++ frame) s → φ) (h : φ → L.Realizes known owned m n fit post) :
    L.Realizes known owned m n fit post :=
  fun s frame y t here => h (fact s frame here) s frame y t here

/-- A program that does not return asks for nothing. -/
theorem fault (e : Fault) : L.Realizes known owned m (Prog.fault e : Prog P β) fit post := by
  intro s frame y t _ run
  cases run

theorem bindFit (first : L.Realizes known owned m n fit mid) (carry : ∀ y, Prog.Returns (g y) fun z => fits z → fit y)
    (next : ∀ known' owned' x y, known ⊆ known' → mid known' owned' x y → L.Realizes known' owned' (f x) (g y) fits last) :
    L.Realizes known owned (m >>= f) (n >>= g) fits last := by
  intro s frame z t here run fine
  obtain ⟨y, t', before, behind⟩ := Prog.exists_of_run_bind run
  obtain ⟨x, s', known', owned', step, same, grows, here', related⟩ := first s frame y t' here before (carry y t' z t behind fine)
  rw [← same] at behind
  obtain ⟨x', s'', known'', owned'', step', same', grows', here'', related'⟩ :=
    next known' owned' x y grows related s' frame z t here' behind fine
  refine ⟨x', s'', known'', owned'', ?_, same', grows.trans grows', here'', related'⟩
  rw [Machine.bind_apply, step]
  exact step'

theorem bind (first : L.Realizes known owned m n Any mid)
    (next : ∀ known' owned' x y, known ⊆ known' → mid known' owned' x y → L.Realizes known' owned' (f x) (g y) fits last) :
    L.Realizes known owned (m >>= f) (n >>= g) fits last :=
  first.bindFit (fun _ _ _ _ _ _ => trivial) next

/-- The machine looks at something. -/
theorem look {f : β → Machine σ α} {m : Machine σ β} {y : β} {n : Prog P δ} {last : Set ι → List ι → α → δ → Prop}
    (first : L.Looks known owned m y) (next : L.Realizes known owned (f y) n fits last) :
    L.Realizes known owned (m >>= f) n fits last := by
  intro s frame z t here run fine
  rw [Machine.bind_apply, first s frame here]
  exact next s frame z t here run fine

/-- The machine changes something that the program does not have. -/
theorem update {m : Machine σ Unit} {f : Unit → Machine σ α} (first : L.Updates known owned m owned')
    (next : L.Realizes known owned' (f ()) n fit post) : L.Realizes known owned (m >>= f) n fit post := by
  intro s frame z t here run fine
  obtain ⟨s', step, same, here'⟩ := first s frame here
  rw [← same] at run
  rw [Machine.bind_apply, step]
  exact next s' frame z t here' run fine

/-- The program computes something. -/
theorem compute {α' : Type} {r : Except Fault β} {g : β → Prog P δ} {m : Machine σ α'} {last : Set ι → List ι → α' → δ → Prop}
    (next : ∀ y, r = .ok y → L.Realizes known owned m (g y) fits last) : L.Realizes known owned m (Prog.lift r >>= g) fits last := by
  cases r with
  | error e =>
    intro s frame y t _ run
    cases run
  | ok y => exact next y rfl

theorem of_leads (h : L.Realizes known' owned' m n fit post) (leads : L.Leads known owned known' owned') :
    L.Realizes known owned m n fit post := by
  intro s frame y t here run fine
  obtain ⟨x, s', known'', owned'', step, same, grows, rest⟩ := h s frame y t (leads.holds s frame here) run fine
  exact ⟨x, s', known'', owned'', step, same, leads.grows.trans grows, rest⟩

/-- What is known of every value of the program. -/
theorem and_returns {Q : β → Prop} (h : L.Realizes known owned m n fit post) (values : Prog.Returns n Q) :
    L.Realizes known owned m n fit fun known' owned' x y => post known' owned' x y ∧ Q y := by
  intro s frame y t here run fine
  obtain ⟨x, s', known', owned', step, same, grows, here', related⟩ := h s frame y t here run fine
  exact ⟨x, s', known', owned', step, same, grows, here', related, values _ _ _ run⟩

/-- A condition that every value meets. -/
theorem of_returns {fit' : β → Prop} (h : L.Realizes known owned m n fit post) (values : Prog.Returns n fit) :
    L.Realizes known owned m n fit' post :=
  fun s frame y t here run _ => h s frame y t here run (values _ _ _ run)

theorem of_any (h : L.Realizes known owned m n Any post) : L.Realizes known owned m n fit post :=
  h.of_returns (Prog.returns_any n)

/-- The same computation on both sides. -/
theorem lift (r : Except Fault α) : L.Realizes known owned (Machine.lift r) (Prog.lift r) (Any : α → Prop)
    fun known' owned' x y => known' = known ∧ owned' = owned ∧ x = y := by
  cases r with
  | error e => exact fault e
  | ok x => exact pure ⟨rfl, rfl, rfl⟩

/-- **The loop rule.** The machine may make as many passes as the program, or more. A pass leads to
nothing fit from a state that is not. -/
theorem whileLoop {step : α → Machine σ (Prog.Flow α γ)} {body : β → Prog P (Prog.Flow β δ)} {inv : Set ι → List ι → α → β → Prop}
    (keeps : ∀ y, Prog.Returns (body y) fun r => Fitting fit fits r → fit y)
    (pass : ∀ known owned x y, inv known owned x y → L.Realizes known owned (step x) (body y) (Fitting fit fits) (Pass inv last)) :
    ∀ {fuel fuel' : Nat} {known owned x y}, fuel' ≤ fuel → inv known owned x y →
      L.Realizes known owned (Machine.whileLoop step fuel x) (Prog.whileLoop body fuel' y) fits last := by
  have back : ∀ fuel y, Prog.Returns (Prog.whileLoop body fuel y) fun z => fits z → fit y := by
    intro fuel y
    refine Prog.returns_whileLoop (fun y' => fit y' → fit y) (fun y' before => ?_) fuel y id
    refine (keeps y').mono fun r kept => ?_
    cases r with
    | next y'' => exact before ∘ kept
    | done z => exact before ∘ kept
  intro fuel fuel'
  induction fuel' generalizing fuel with
  | zero => exact fun _ _ => fault _
  | succ fuel' ih =>
    intro known owned x y enough here
    obtain ⟨fuel, rfl⟩ : ∃ rest, fuel = rest + 1 := ⟨fuel - 1, by omega⟩
    refine (pass known owned x y here).bindFit (fun r => ?_) fun known' owned' r r' _ after => ?_
    · cases r with
      | next y' => exact back fuel' y'
      | done z => exact Prog.returns_pure id
    · cases r with
      | next x' =>
        cases r' with
        | next y' => exact ih (Nat.le_of_succ_le_succ enough) after
        | done z => exact after.elim
      | done x' =>
        cases r' with
        | next y' => exact after.elim
        | done z => exact .pure after

end Realizes

end Layout

end Cpptrw.Lib
