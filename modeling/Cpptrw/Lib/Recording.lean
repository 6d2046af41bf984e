import Cpptrw.Lib.Prog

/-!
# What a program writes

`P.recording` is the platform `P` with a record of what each call of `writev`
was given, and `P.accepting` with a record of the octets that the kernel took.
A program that only computes and allocates leaves such a record as it was; it
is `Quiet`.
-/

namespace Cpptrw.Lib

/-- The platform on which every call of `writev` is written down. -/
def Platform.recording (P : Platform) : Platform where
  State := P.State × List (List UInt8)
  allocate s n := ((P.allocate s.1 n).1, (P.allocate s.1 n).2, s.2)
  rewind s := (P.rewind s.1, s.2)
  writev s buffers := ((P.writev s.1 buffers).1, (P.writev s.1 buffers).2, s.2 ++ [buffers.flatten])

/-- The platform in this state, with nothing written. -/
def Platform.unwritten {P : Platform} (s : P.State) : P.recording.State := (s, [])

/-- What has been written, call by call. -/
def Platform.written {P : Platform} (s : P.recording.State) : List (List UInt8) := Prod.snd s

/-- The octets that a call of `writev` took. -/
def Platform.taken (answer : Option Nat) (buffers : List (List UInt8)) : List UInt8 :=
  match answer with
  | none => []
  | some count => buffers.flatten.take count

/-- The platform on which every octet that the kernel took is written down. -/
def Platform.accepting (P : Platform) : Platform where
  State := P.State × List UInt8
  allocate s n := ((P.allocate s.1 n).1, (P.allocate s.1 n).2, s.2)
  rewind s := (P.rewind s.1, s.2)
  writev s buffers := ((P.writev s.1 buffers).1, (P.writev s.1 buffers).2, s.2 ++ Platform.taken (P.writev s.1 buffers).1 buffers)

/-- The platform in this state, with nothing taken. -/
def Platform.untaken {P : Platform} (s : P.State) : P.accepting.State := (s, [])

/-- The octets that the kernel has taken, in their order. -/
def Platform.accepted {P : Platform} (s : P.accepting.State) : List UInt8 := Prod.snd s

namespace Prog

open Platform

variable {P : Platform} {α β ω : Type}

/-- Something about the platform is left as it was. -/
def Preserves (view : P.State → ω) (m : Prog P α) : Prop := ∀ s x s', m s = .ok (x, s') → view s' = view s

/-- Computing leaves everything as it was that an allocation does not change. -/
theorem compositional_preserves {view : P.State → ω} (allocated : ∀ s n, view (P.allocate s n).2 = view s) :
    Compositional P fun _ m => Preserves view m where
  pure := by
    intro α x s y s' run
    cases run
    rfl
  fault := by
    intro α e s x s' run
    cases run
  allocate := by
    intro n s x s' run
    have here : P.allocate s n = (x, s') := Except.ok.inj run
    have same := allocated s n
    rwa [here] at same
  bind := by
    intro α β m f first next s y s'' run
    obtain ⟨x, s', before, run⟩ := exists_of_run_bind run
    exact (next x s' y s'' run).trans (first s x s' before)

/-- Nothing is written. -/
def Quiet (m : Prog P.recording α) : Prop := ∀ s x s', m s = .ok (x, s') → written s' = written s

/-- The run from `s` returns, and what it writes is in `Q`. -/
def Writes (m : Prog P.recording α) (s : P.State) (Q : List (List UInt8) → Prop) : Prop :=
  ∃ x s', m (unwritten s) = .ok (x, s') ∧ Q (written s')

/-- Computing and allocating is quiet. -/
theorem compositional_quiet : Compositional P.recording fun _ m => Quiet m := compositional_preserves fun _ _ => rfl

/-- Computing and allocating has the kernel take nothing. -/
theorem compositional_accepted : Compositional P.accepting fun _ m => Preserves accepted m := compositional_preserves fun _ _ => rfl

theorem quiet_rewind : Quiet (rewind : Prog P.recording Unit) := by
  intro s x s' run
  cases run
  rfl

/-- A quiet program in front writes nothing. -/
theorem Writes.bind {m : Prog P.recording α} {f : α → Prog P.recording β} {s : P.State} {Q : List (List UInt8) → Prop}
    {R : α → Prop} (first : Yields m (unwritten s) R) (quiet : Quiet m) (next : ∀ x s', R x → Writes (f x) s' Q) :
    Writes (m >>= f) s Q := by
  obtain ⟨x, s', run, hx⟩ := first
  have none : written s' = [] := quiet (unwritten s) x s' run
  have same : s' = unwritten (Prod.fst s') := Prod.ext rfl none
  obtain ⟨y, s'', run', hy⟩ := next x (Prod.fst s') hx
  rw [← same] at run'
  exact ⟨y, s'', by rw [bind_apply, run]; exact run', hy⟩

/-- One call of `writev`, and a quiet program behind it. -/
theorem writes_writev {f : Option Nat → Prog P.recording β} (buffers : List (List UInt8)) (s : P.State)
    (quiet : ∀ sent, Quiet (f sent)) (returns : ∀ sent, Ensures (f sent) fun _ => True) :
    Writes (writev buffers >>= f) s (· = [buffers.flatten]) := by
  obtain ⟨sent, s', run, once⟩ : ∃ sent s', (writev buffers : Prog P.recording _) (unwritten s) = .ok (sent, s') ∧
      written s' = [buffers.flatten] := ⟨_, _, rfl, rfl⟩
  obtain ⟨x, s'', run', -⟩ := returns sent s'
  refine ⟨x, s'', ?_, (quiet sent s' x s'' run').trans once⟩
  rw [bind_apply, run]
  exact run'

/-- Two accounts of one run. -/
theorem Writes.and {m : Prog P.recording α} {s : P.State} {Q R : List (List UInt8) → Prop} (hq : Writes m s Q)
    (hr : Writes m s R) : Writes m s fun written => Q written ∧ R written := by
  obtain ⟨x, s', run, hq⟩ := hq
  obtain ⟨y, s'', run', hr⟩ := hr
  rw [run] at run'
  cases run'
  exact ⟨x, s', run, hq, hr⟩

/-! ## What is written behind what there is -/

/-- Whatever a run returns, with what it has written it is in `Q`. -/
def Tells (m : Prog P.recording α) (Q : α → List (List UInt8) → Prop) : Prop :=
  ∀ s x s', m s = .ok (x, s') → ∃ more, written s' = written s ++ more ∧ Q x more

theorem Quiet.tells {m : Prog P.recording α} (quiet : Quiet m) {Q : α → List (List UInt8) → Prop} (values : Returns m (Q · [])) :
    Tells m Q := fun s x s' run => ⟨[], by rw [quiet s x s' run, List.append_nil], values s x s' run⟩

theorem tells_pure {x : α} {Q : α → List (List UInt8) → Prop} (h : Q x []) : Tells (pure x : Prog P.recording α) Q :=
  (compositional_quiet.pure x).tells (returns_pure h)

theorem Tells.mono {m : Prog P.recording α} {Q R : α → List (List UInt8) → Prop} (h : Tells m Q)
    (weaken : ∀ x more, Q x more → R x more) : Tells m R := by
  intro s x s' run
  obtain ⟨more, same, told⟩ := h s x s' run
  exact ⟨more, same, weaken x more told⟩

theorem Tells.bind {m : Prog P.recording α} {f : α → Prog P.recording β} {Q : α → List (List UInt8) → Prop}
    {R : β → List (List UInt8) → Prop} (first : Tells m Q)
    (next : ∀ x more, Q x more → Tells (f x) fun y more' => R y (more ++ more')) : Tells (m >>= f) R := by
  intro s y s'' run
  obtain ⟨x, s', before, run⟩ := exists_of_run_bind run
  obtain ⟨more, same, told⟩ := first s x s' before
  obtain ⟨more', same', told'⟩ := next x more told s' y s'' run
  exact ⟨more ++ more', by rw [same', same, List.append_assoc], told'⟩

/-- A quiet step in front. -/
theorem Quiet.bind_tells {m : Prog P.recording α} {f : α → Prog P.recording β} {R : β → List (List UInt8) → Prop}
    (quiet : Quiet m) (next : ∀ x, Tells (f x) R) : Tells (m >>= f) R :=
  Tells.bind (quiet.tells (Q := fun _ more => more = []) fun _ _ _ _ => rfl) fun x more none => by
    subst none
    exact next x

theorem tells_writev (buffers : List (List UInt8)) :
    Tells (writev buffers : Prog P.recording _) fun _ more => more = [buffers.flatten] := by
  intro s x s' run
  cases run
  exact ⟨_, rfl, rfl⟩

/-- A loop, with what it has written so far. -/
theorem tells_whileLoop {σ ρ : Type} {body : σ → Prog P.recording (Flow σ ρ)} {Q : ρ → List (List UInt8) → Prop}
    (Inv : σ → List (List UInt8) → Prop)
    (step : ∀ s before, Inv s before → Tells (body s) fun
      | .next s', more => Inv s' (before ++ more)
      | .done r, more => Q r (before ++ more)) :
    ∀ fuel s before, Inv s before → Tells (whileLoop body fuel s) fun r more => Q r (before ++ more) := by
  intro fuel
  induction fuel with
  | zero =>
    intro s before _ t x t' run
    cases run
  | succ fuel ih =>
    intro s before here
    refine (step s before here).bind fun f more led => ?_
    cases f with
    | next s' =>
      refine (ih s' (before ++ more) led).mono fun r more' told => ?_
      rwa [List.append_assoc] at told
    | done r => exact tells_pure (by simpa using led)

/-- A run that is known to return, with what it tells. -/
theorem Ensures.tells {m : Prog P.recording α} {Q : α → Prop} {R : α → List (List UInt8) → Prop} (h : Ensures m Q) (told : Tells m R)
    (s : P.recording.State) : ∃ x s' more, m s = .ok (x, s') ∧ Q x ∧ written s' = written s ++ more ∧ R x more := by
  obtain ⟨x, s', run, hx⟩ := h s
  obtain ⟨more, same, hr⟩ := told s x s' run
  exact ⟨x, s', more, run, hx, same, hr⟩

end Prog

theorem Platform.Succeeds.recording {P : Platform} (all : P.Succeeds) : P.recording.Succeeds := fun s n => all s.1 n

end Cpptrw.Lib
