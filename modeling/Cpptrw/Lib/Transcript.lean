import Cpptrw.Lib.Prog

/-!
# What decides a run

`P.transcribing` is the platform `P` with a transcript of what it was asked and
what it answered. A program that computes, allocates and writes is `Decided` by
the answers: from every state in which the platform gives the same ones it runs
in the same way. What the state is made of does not matter otherwise.
-/

namespace Cpptrw.Lib

/-- A question to the platform, with its answer. -/
inductive Exchange
  | allocated (n : Nat) (met : Bool)
  | written (buffers : List (List UInt8)) (taken : Option Nat)
  deriving DecidableEq, Repr

/-- The platform on which every exchange is written down. -/
def Platform.transcribing (P : Platform) : Platform where
  State := P.State × List Exchange
  allocate s n := ((P.allocate s.1 n).1, (P.allocate s.1 n).2, s.2 ++ [.allocated n (P.allocate s.1 n).1])
  rewind s := (P.rewind s.1, s.2)
  writev s buffers := ((P.writev s.1 buffers).1, (P.writev s.1 buffers).2, s.2 ++ [.written buffers (P.writev s.1 buffers).1])

/-- The platform in this state, behind this transcript. -/
def Platform.transcribed {P : Platform} (s : P.State) (before : List Exchange) : P.transcribing.State := (s, before)

/-- Asked the questions, the platform gives the answers, and gets from one state to another. -/
def Platform.Gives (P : Platform) : List Exchange → P.State → P.State → Prop
  | [], s, s' => s' = s
  | .allocated n met :: rest, s, s' => (P.allocate s n).1 = met ∧ P.Gives rest (P.allocate s n).2 s'
  | .written buffers taken :: rest, s, s' => (P.writev s buffers).1 = taken ∧ P.Gives rest (P.writev s buffers).2 s'

theorem Platform.gives_append {P : Platform} (xs ys : List Exchange) {s s'' : P.State} :
    P.Gives (xs ++ ys) s s'' ↔ ∃ s', P.Gives xs s s' ∧ P.Gives ys s' s'' := by
  induction xs generalizing s with
  | nil => simp [Gives]
  | cons x xs ih => cases x <;> simp [Gives, ih, and_assoc]

namespace Prog

open Platform

variable {P : Platform} {α β : Type}

/-- **The answers decide the run.** What it asks and is answered is in the transcript, and wherever the
same is answered the run is the same. -/
def Decided (m : Prog P.transcribing α) : Prop :=
  ∀ (s : P.State) (before : List Exchange) (x : α) (after : P.transcribing.State), m (transcribed s before) = .ok (x, after) →
    ∃ s' exchanges, after = transcribed s' (before ++ exchanges) ∧ P.Gives exchanges s s' ∧
      ∀ t t' before', P.Gives exchanges t t' → m (transcribed t before') = .ok (x, transcribed t' (before' ++ exchanges))

theorem decided_allocate (n : Nat) : Decided (allocate n : Prog P.transcribing Bool) := by
  intro s before x after run
  cases run
  refine ⟨_, [.allocated n (P.allocate s n).1], rfl, ⟨rfl, rfl⟩, fun t t' before' gives => ?_⟩
  obtain ⟨met, rfl⟩ := gives
  exact congrArg Except.ok (Prod.ext met (by rw [← met]; rfl))

theorem decided_writev (buffers : List (List UInt8)) : Decided (writev buffers : Prog P.transcribing (Option Nat)) := by
  intro s before x after run
  cases run
  refine ⟨_, [.written buffers (P.writev s buffers).1], rfl, ⟨rfl, rfl⟩, fun t t' before' gives => ?_⟩
  obtain ⟨taken, rfl⟩ := gives
  exact congrArg Except.ok (Prod.ext taken (by rw [← taken]; rfl))

/-- Whatever is made of these is decided by the answers. -/
theorem compositional_decided : Compositional P.transcribing fun _ m => Decided m where
  pure := by
    intro α x s before y after run
    cases run
    refine ⟨s, [], by rw [List.append_nil], rfl, fun t t' before' gives => ?_⟩
    cases gives
    rw [List.append_nil]
    rfl
  fault := by
    intro α e s before x after run
    cases run
  allocate := decided_allocate
  bind := by
    intro α β m f first next s before y after run
    obtain ⟨x, middle, run, run'⟩ := exists_of_run_bind run
    obtain ⟨s₁, xs, rfl, gives, again⟩ := first s before x middle run
    obtain ⟨s₂, ys, rfl, gives', again'⟩ := next x s₁ _ y after run'
    refine ⟨s₂, xs ++ ys, by rw [List.append_assoc], (gives_append xs ys).mpr ⟨s₁, gives, gives'⟩, fun t t'' before' both => ?_⟩
    obtain ⟨t', front, back⟩ := (gives_append xs ys).mp both
    rw [bind_apply, again t t' before' front, ← List.append_assoc]
    exact again' t' t'' _ back

end Prog

end Cpptrw.Lib
