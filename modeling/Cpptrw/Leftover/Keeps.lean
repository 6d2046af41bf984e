import Cpptrw.Leftover.Typing

/-!
# Code that leaves a good world

`Reads` is for code that only looks, and only at what was written. `Leaves` is
for code that also writes: it leaves a good world, in which something is still
there of the one before. That is every structure for `Keeps`, and all but the
parameter that the parser is at for `Parses`. There is a rule for each way code
is put together, and one for each operation on memory.
-/

namespace Cpptrw.Leftover

open Lib Arena

variable {α β : Type} {S : Setting} {Γ Γ' : Typing} {w w' : World}

/-- One result, which is in `Q`, and the world as it was. -/
def Reads (w : World) (m : Code α) (Q : α → Prop) : Prop := Machine.Runs Same m w fun x w' => w' = w ∧ Q x

/-- A relation between a world and a later one. -/
class Frame (R : Typing → World → Typing → World → Prop) : Prop where
  refl : ∀ Γ w, R Γ w Γ w
  trans : ∀ {Γ w Γ' w' Γ'' w''}, R Γ w Γ' w' → R Γ' w' Γ'' w'' → R Γ w Γ'' w''

instance : Frame Later := ⟨Later.refl, Later.trans⟩

/-- What the parser leaves of a world: structures that are done, and what was written. -/
structure Onward (Γ : Typing) (w : World) (Γ' : Typing) (w' : World) : Prop where
  leads : Γ.Leads Γ'
  written : ∀ address, w.written address = true → w'.written address = true

instance : Frame Onward := ⟨fun Γ _ => ⟨.refl Γ, fun _ => id⟩,
  fun h h' => ⟨h.leads.trans h'.leads, fun address here => h'.written address (h.written address here)⟩⟩

/-- One result, and a good world in which this much is still there. -/
def Leaves (R : Typing → World → Typing → World → Prop) (S : Setting) (Γ : Typing) (w : World) (m : Code α)
    (Q : α → Typing → World → Prop) : Prop :=
  Machine.Runs Same m w fun x w' => ∃ Γ', Good S Γ' w' ∧ R Γ w Γ' w' ∧ Q x Γ' w'

abbrev Keeps (S : Setting) (Γ : Typing) (w : World) (m : Code α) (Q : α → Typing → World → Prop) : Prop := Leaves Later S Γ w m Q

abbrev Parses (S : Setting) (Γ : Typing) (w : World) (m : Code α) (Q : α → Typing → World → Prop) : Prop := Leaves Onward S Γ w m Q

/-- Behind a pass of a loop. -/
def Pass (inv : α → Typing → World → Prop) (last : β → Typing → World → Prop) : Prog.Flow α β → Typing → World → Prop
  | .done y => last y
  | .next x => inv x

namespace Reads

variable {m : Code α} {f : α → Code β} {Q : α → Prop} {R : β → Prop}

theorem pure {x : α} (h : Q x) : Reads w (Pure.pure x) Q := Machine.Runs.pure ⟨rfl, h⟩

theorem lift (r : Except Fault α) : Reads w (Machine.lift r) fun _ => True := Machine.Runs.lift fun _ _ => ⟨rfl, trivial⟩

theorem bind (first : Reads w m Q) (next : ∀ x, Q x → Reads w (f x) R) : Reads w (m >>= f) R := by
  apply Machine.Runs.bind first
  intro x w' ⟨same, here⟩
  exact same ▸ next x here

theorem mono {Q' : α → Prop} (h : Reads w m Q) (weaken : ∀ x, Q x → Q' x) : Reads w m Q' := by
  apply Machine.Runs.mono h
  intro x w' ⟨same, here⟩
  exact ⟨same, weaken x here⟩

/-- What every pass of a loop that only looks keeps. -/
theorem whileLoop {step : α → Code (Prog.Flow α β)} {inv : α → Prop}
    (pass : ∀ x, inv x → Reads w (step x) fun
      | .done y => R y
      | .next x => inv x) :
    ∀ (fuel : Nat) (x : α), inv x → Reads w (Machine.whileLoop step fuel x) R
  | 0, _, _ => Machine.Runs.fault _
  | fuel + 1, x, here => by
    apply (pass x here).bind
    intro r after
    cases r with
    | done y => exact .pure after
    | next x => exact whileLoop pass fuel x after

theorem load {pointer offset size : Nat} (filled : Filled w (pointer + offset) size) :
    Reads w (load S pointer offset size) fun octets => octets.length = size :=
  runs_load filled ⟨rfl, Memory.length_read ..⟩

/-- The first octets of a region. -/
theorem octets {pointer size : Nat} (filled : Filled w pointer size) :
    Reads w (Leftover.load S pointer 0 size) fun octets => octets.length = size :=
  load filled

theorem load64 {pointer offset : Nat} (filled : Filled w (pointer + offset) 8) :
    Reads w (load64 S pointer offset) fun value => value = w.word (pointer + offset) :=
  runs_load64 filled ⟨rfl, rfl⟩

theorem load32 {pointer offset : Nat} (filled : Filled w (pointer + offset) 4) :
    Reads w (load32 S pointer offset) fun value => value = w.half (pointer + offset) :=
  runs_load32 filled ⟨rfl, rfl⟩

end Reads

namespace Leaves

variable {F : Typing → World → Typing → World → Prop} {m : Code α} {f : α → Code β} {Q : α → Typing → World → Prop}
  {R : β → Typing → World → Prop}

theorem fault (e : Fault) : Leaves F S Γ w (Machine.fault e : Code α) Q := Machine.Runs.fault e

theorem mono {Q' : α → Typing → World → Prop} (h : Leaves F S Γ w m Q) (weaken : ∀ x Γ' w', F Γ w Γ' w' → Q x Γ' w' → Q' x Γ' w') :
    Leaves F S Γ w m Q' := by
  apply Machine.Runs.mono h
  rintro x w' ⟨Γ', good, later, here⟩
  exact ⟨Γ', good, later, weaken x Γ' w' later here⟩

/-- A step that only looks. -/
theorem read {P : α → Prop} (first : Reads w m P) (next : ∀ x, P x → Leaves F S Γ w (f x) R) : Leaves F S Γ w (m >>= f) R := by
  apply Machine.Runs.bind first
  intro x w' ⟨same, here⟩
  exact same ▸ next x here

variable [Frame F]

theorem pure {x : α} (good : Good S Γ w) (h : Q x Γ w) : Leaves F S Γ w (Pure.pure x) Q :=
  Machine.Runs.pure ⟨Γ, good, Frame.refl Γ w, h⟩

/-- Code that only looks. -/
theorem reads {P : α → Prop} (good : Good S Γ w) (h : Reads w m P) : Leaves F S Γ w m fun x _ _ => P x := by
  apply Machine.Runs.mono h
  rintro x w' ⟨rfl, here⟩
  exact ⟨Γ, good, Frame.refl Γ w', here⟩

theorem bind (first : Leaves F S Γ w m Q) (next : ∀ x Γ' w', Good S Γ' w' → F Γ w Γ' w' → Q x Γ' w' → Leaves F S Γ' w' (f x) R) :
    Leaves F S Γ w (m >>= f) R := by
  apply Machine.Runs.bind first
  rintro x w' ⟨Γ', good, later, here⟩
  apply Machine.Runs.mono (next x Γ' w' good later here)
  rintro y w'' ⟨Γ'', good', later', there⟩
  exact ⟨Γ'', good', Frame.trans later later', there⟩

/-- A step that only the typing takes. -/
theorem ghost (step : F Γ w Γ' w) (next : Leaves F S Γ' w m Q) : Leaves F S Γ w m Q := by
  apply Machine.Runs.mono next
  rintro x w'' ⟨Γ'', good, later, here⟩
  exact ⟨Γ'', good, Frame.trans step later, here⟩

/-- What every pass of a loop keeps. -/
theorem whileLoop {step : α → Code (Prog.Flow α β)} {inv : α → Typing → World → Prop}
    (pass : ∀ x Γ w, Good S Γ w → inv x Γ w → Leaves F S Γ w (step x) (Pass inv R)) :
    ∀ (fuel : Nat) (x : α) (Γ : Typing) (w : World), Good S Γ w → inv x Γ w → Leaves F S Γ w (Machine.whileLoop step fuel x) R
  | 0, _, _, _, _, _ => fault _
  | fuel + 1, x, Γ, w, good, here => by
    apply (pass x Γ w good here).bind
    intro r Γ' w' good' _ after
    cases r with
    | done y => exact .pure good' after
    | next x => exact whileLoop pass fuel x Γ' w' good' after

end Leaves

namespace Keeps

/-- Other code in the course of the parser. -/
theorem parses {m : Code α} {f : α → Code β} {Q : α → Typing → World → Prop} {R : β → Typing → World → Prop} (first : Keeps S Γ w m Q)
    (next : ∀ x Γ' w', Good S Γ' w' → Later Γ w Γ' w' → Q x Γ' w' → Parses S Γ' w' (f x) R) : Parses S Γ w (m >>= f) R := by
  apply Machine.Runs.bind first
  rintro x w' ⟨Γ', good, later, here⟩
  apply Machine.Runs.mono (next x Γ' w' good later here)
  rintro y w'' ⟨Γ'', good', onward, there⟩
  exact ⟨Γ'', good', Frame.trans ⟨later.leads, later.written⟩ onward, there⟩

/-- **Allocation**: `NULL`, or a raw region. -/
theorem allocate (sound : S.Sound) (good : Good S Γ w) {purpose : Purpose} {size : Nat} (requestable : Requestable size) :
    Keeps S Γ w (allocate S purpose size) fun pointer Γ' w' => Γ' = Γ ∧ (pointer = 0 ∨
      Raw S Γ w' pointer size ∧ ∀ other n, 0 < n → Raw S Γ w other n → Raw S Γ w' other n ∧ other ≠ pointer) := by
  apply runs_allocate
  · intro arena heap result
    have good' := good.grown sound requestable result w.purposes
    exact ⟨Γ, good', ⟨fun _ _ => id, fun _ _ _ _ _ => id, fun _ => id⟩, rfl, Or.inl rfl⟩
  · intro pointer arena heap result
    have good' := good.grown sound requestable result (purpose :: w.purposes)
    obtain ⟨empty, valid, small⟩ := good.grown_raw sound requestable result
    have untyped : Γ pointer = none := by
      cases here : Γ pointer with
      | none => rfl
      | some k =>
        obtain ⟨positive, region, known, start, fits⟩ := good.placed pointer k here
        have := empty region known start
        omega
    refine ⟨Γ, good', ⟨fun _ _ => id, fun _ _ _ _ _ => id, fun _ => id⟩, rfl, Or.inr ⟨⟨valid, small, untyped, ?_, ?_⟩, ?_⟩⟩
    · exact List.mem_append_left _ List.mem_cons_self
    · intro region known start
      rcases List.mem_cons.mp known with rfl | known
      · exact Nat.le_refl _
      · exact (empty region known start).symm ▸ Nat.zero_le _
    · intro other n positive raw
      have different : other ≠ pointer := by
        intro same
        have : n = 0 := empty _ raw.known same
        omega
      refine ⟨⟨raw.valid, raw.small, raw.untyped, List.mem_cons_of_mem _ raw.known, fun region known start => ?_⟩, different⟩
      rcases List.mem_cons.mp known with rfl | known
      · exact absurd start.symm different
      · exact raw.largest region known start

/-- What is sent is in no structure. -/
theorem writev (good : Good S Γ w) (buffers : List (List UInt8)) : Keeps S Γ w (writev S buffers) fun _ _ _ => True := by
  apply runs_writev
  intro answer
  have good' : Good S Γ { w with sent := w.sent ++ [buffers] } := by
    refine ⟨good.sound, good.preallocate, good.apart, good.range, good.placed, fun a k here => ?_⟩
    exact (good.holds a k here).mono (.refl Γ) (fun _ => id) fun _ _ _ => rfl
  exact ⟨Γ, good', ⟨fun _ _ => id, fun _ _ _ _ _ => id, fun _ => id⟩, trivial⟩

/-- Allocation of a buffer that is filled octet by octet. -/
theorem allocateChars (sound : S.Sound) (good : Good S Γ w) {purpose : Purpose} {size : Nat} (requestable : Requestable size)
    (positive : 0 < size) :
    Keeps S Γ w (Leftover.allocate S purpose size) fun pointer Γ' _ => pointer = 0 ∨ pointer ≠ 0 ∧ pointer < 2 ^ 64 ∧ Γ'.IsChars pointer := by
  apply Machine.Runs.mono (allocate sound good requestable)
  rintro pointer w' ⟨Γ₁, good₁, later₁, rfl, null | ⟨raw, -⟩⟩
  · exact ⟨Γ₁, good₁, later₁, Or.inl null⟩
  · have good₂ := good₁.declare (.set raw.untyped (.chars size)) ⟨positive, _, raw.known, rfl, Nat.le_refl _⟩ trivial
    exact ⟨_, good₂, later₁.set raw.untyped (by simp), Or.inr ⟨raw.valid, raw.small, size, Typing.set_self ..⟩⟩

/-- **A structure is made of a raw region**, in one store. -/
theorem build (good : Good S Γ w) {a size : Nat} {k : Kind} {octets : List UInt8} (raw : Raw S Γ w a size) (positive : 0 < k.size)
    (enough : k.size ≤ octets.length) (holds : k.Holds (Γ.set a k) (w.put a octets) a) {post : Unit → World → Prop}
    (after : Good S (Γ.set a k) (w.put a octets) → post () (w.put a octets)) : Machine.Runs Same (store S a 0 octets) w post := by
  apply runs_store
  · intro empty
    rw [empty, List.length_nil] at enough
    omega
  · intro _ _ bounds
    apply after
    have fits := raw.fits bounds
    apply good.retype bounds (.set raw.untyped k) _ holds
    exact ⟨positive, ⟨a, size⟩, raw.known, rfl, by dsimp only; omega⟩

/-- The same, when the structure is not an open parameter. -/
theorem construct (good : Good S Γ w) {a size : Nat} {k : Kind} {octets : List UInt8} (raw : Raw S Γ w a size) (positive : 0 < k.size)
    (enough : k.size ≤ octets.length) (closed : ∀ nameLength valueLength name value, k ≠ .opened nameLength valueLength name value)
    (holds : k.Holds (Γ.set a k) (w.put a octets) a) :
    Keeps S Γ w (store S a 0 octets) fun _ Γ' w' => Γ' = Γ.set a k ∧ w' = w.put a octets := by
  apply build good raw positive enough holds
  intro good'
  exact ⟨_, good', ((Later.refl Γ w).put a octets).set raw.untyped closed, rfl, rfl⟩

/-- One field of a structure is replaced. -/
theorem setField (good : Good S Γ w) {a offset n : Nat} {k : Kind} (here : Γ a = some k)
    (holds : k.Holds Γ (w.put (a + offset) (toOctets 8 n)) a) : Keeps S Γ w (store64 S a offset n) fun _ Γ' _ => Γ' = Γ := by
  apply runs_store64
  intro _ bounds
  rw [← length_toOctets 8 n] at bounds
  refine ⟨Γ, good.put bounds fun k' there => ?_, (Later.refl Γ w).put _ _, rfl⟩
  cases Option.some.inj (here.symm.trans there)
  exact holds

/-- Octets are stored in a buffer. -/
theorem fill (good : Good S Γ w) {a offset : Nat} {octets : List UInt8} (chars : octets ≠ [] → Γ.IsChars a) :
    Keeps S Γ w (store S a offset octets) fun _ Γ' w' => Γ' = Γ ∧ Filled w' (a + offset) octets.length := by
  apply runs_store
  · intro empty
    refine ⟨Γ, good, .refl Γ w, rfl, fun address low high => ?_⟩
    rw [empty, List.length_nil] at high
    omega
  · intro some _ bounds
    refine ⟨Γ, good.put bounds fun k here => ?_, (Later.refl Γ w).put _ _, rfl, filled_put w _ octets⟩
    obtain ⟨size, chars⟩ := chars some
    cases Option.some.inj (chars.symm.trans here)
    trivial

end Keeps

end Cpptrw.Leftover
