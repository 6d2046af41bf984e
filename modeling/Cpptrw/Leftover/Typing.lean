import Cpptrw.Leftover.World

/-!
# What is in the regions

Which structure a region holds is a history too, a typing. `Good` says that
every structure was written as a whole, and that its pointers are `NULL` or lead
to structures of the right kind. The octets of a string are a kind of their own,
and a parameter that the parser is still at is one with the fields it has. A
region that was just allocated is `Raw`, until one store makes a structure of it.
-/

namespace Cpptrw.Leftover

open Lib Arena

/-- What the program relies on: `malloc` returns storage where nothing is, within the address space. -/
structure Setting.Sound (S : Setting) : Prop where
  fresh : ∀ call heap, Fresh (S.malloc call heap) heap
  apart : ∀ call heap size address, S.malloc call heap size = some address → (⟨address, size⟩ : Region).Disjoint S.stack
  range : ∀ call heap size address, S.malloc call heap size = some address → address + size < 2 ^ 64
  frame : S.frame + 88 < 2 ^ 64

inductive Kind
  | chars (size : Nat)
  | string
  | bucket
  | slots (count : Nat)
  | param
  | opened (nameLength valueLength name value : Nat)
  deriving DecidableEq

/-- The size of a structure. -/
def Kind.size : Kind → Nat
  | .chars size => size
  | .string => 24
  | .bucket => 32
  | .slots count => 8 * count
  | .param => 32
  | .opened .. => 32

/-- The kind of the structure that starts at an address. -/
abbrev Typing := Nat → Option Kind

namespace Typing

/-- A parameter, whether the parser is through with it or not. -/
def IsParam (Γ : Typing) (pointer : Nat) : Prop :=
  Γ pointer = some .param ∨ ∃ nameLength valueLength name value, Γ pointer = some (.opened nameLength valueLength name value)

def IsString (Γ : Typing) (pointer : Nat) : Prop := Γ pointer = some .string

def IsBucket (Γ : Typing) (pointer : Nat) : Prop := Γ pointer = some .bucket

/-- The octets of a string, with room for more or not. -/
def IsChars (Γ : Typing) (pointer : Nat) : Prop := ∃ size, Γ pointer = some (.chars size)

def set (Γ : Typing) (a : Nat) (k : Kind) : Typing := fun b => if b = a then some k else Γ b

@[simp] theorem set_self (Γ : Typing) (a : Nat) (k : Kind) : Γ.set a k a = some k := if_pos rfl

theorem set_other {Γ : Typing} {a b : Nat} (k : Kind) (other : b ≠ a) : Γ.set a k b = Γ b := if_neg other

/-- A typing where everything but open parameters is as it was, and these are parameters still. -/
structure Leads (Γ Γ' : Typing) : Prop where
  kept : ∀ a k, Γ a = some k → (∀ nameLength valueLength name value, k ≠ .opened nameLength valueLength name value) → Γ' a = some k
  param : ∀ a, Γ.IsParam a → Γ'.IsParam a

namespace Leads

variable {Γ Γ' Γ'' : Typing} {a : Nat}

theorem refl (Γ : Typing) : Γ.Leads Γ := ⟨fun _ _ here _ => here, fun _ => id⟩

theorem trans (h : Γ.Leads Γ') (h' : Γ'.Leads Γ'') : Γ.Leads Γ'' :=
  ⟨fun a k here other => h'.kept a k (h.kept a k here other) other, fun a here => h'.param a (h.param a here)⟩

theorem chars (h : Γ.Leads Γ') (here : Γ.IsChars a) : Γ'.IsChars a := by
  obtain ⟨size, here⟩ := here
  exact ⟨size, h.kept a _ here fun _ _ _ _ other => by cases other⟩

theorem string (h : Γ.Leads Γ') (here : Γ.IsString a) : Γ'.IsString a :=
  h.kept a _ here fun _ _ _ _ other => by cases other

theorem bucket (h : Γ.Leads Γ') (here : Γ.IsBucket a) : Γ'.IsBucket a :=
  h.kept a _ here fun _ _ _ _ other => by cases other

theorem slots (h : Γ.Leads Γ') {count : Nat} (here : Γ a = some (.slots count)) : Γ' a = some (.slots count) :=
  h.kept a _ here fun _ _ _ _ other => by cases other

/-- A structure where there was none. -/
theorem set (untyped : Γ a = none) (k : Kind) : Γ.Leads (Γ.set a k) := by
  have other : ∀ b k', Γ b = some k' → b ≠ a := by
    intro b k' here same
    rw [same, untyped] at here
    cases here
  constructor
  · intro b k' here _
    rw [set_other k (other b k' here), here]
  · intro b here
    unfold IsParam at here ⊢
    rcases here with here | ⟨nameLength, valueLength, name, value, here⟩
    · exact Or.inl ((set_other k (other b _ here)).trans here)
    · exact Or.inr ⟨nameLength, valueLength, name, value, (set_other k (other b _ here)).trans here⟩

/-- An open parameter stays a parameter. -/
theorem set_param {nameLength valueLength name value : Nat} (here : Γ a = some (.opened nameLength valueLength name value)) {k : Kind}
    (param : (Γ.set a k).IsParam a) : Γ.Leads (Γ.set a k) := by
  constructor
  · intro b k' there closed
    by_cases same : b = a
    · subst same
      cases there.symm.trans here
      exact absurd rfl (closed nameLength valueLength name value)
    · rw [set_other k same, there]
  · intro b there
    by_cases same : b = a
    · exact same ▸ param
    · unfold IsParam at there ⊢
      rwa [set_other k same]

end Leads

end Typing

/-- `NULL`, or a pointer of which this holds. -/
def OrNull (P : Nat → Prop) (pointer : Nat) : Prop := pointer = 0 ∨ P pointer

/-- The fields of an `sl_string`: its octets were written, and its room is a buffer. -/
structure StringOk (Γ : Typing) (w : World) (allocated length buffer : Nat) : Prop where
  small : buffer < 2 ^ 64
  filled : Filled w buffer length
  room : allocated = 0 ∨ Γ.IsChars buffer

/-- What the fields of a structure are. -/
def Kind.Holds (Γ : Typing) (w : World) (a : Nat) : Kind → Prop
  | .chars _ => True
  | .string => Filled w a 24 ∧ StringOk Γ w (w.word a) (w.word (a + 8)) (w.word (a + 16))
  | .bucket => Filled w a 32 ∧ OrNull Γ.IsBucket (w.word a) ∧ Γ.IsString (w.word (a + 16)) ∧ OrNull Γ.IsString (w.word (a + 24))
  | .slots count => Filled w a (8 * count) ∧ ∀ i < count, OrNull Γ.IsBucket (w.word (a + 8 * i))
  | .param => Filled w a 32 ∧ OrNull Γ.IsParam (w.word a) ∧ Filled w (w.word (a + 16)) (w.half (a + 8)) ∧
      Filled w (w.word (a + 24)) (w.half (a + 12))
  | .opened nameLength valueLength name value => Filled w a 32 ∧ OrNull Γ.IsParam (w.word a) ∧ w.half (a + 8) = nameLength ∧
      w.half (a + 12) = valueLength ∧ w.word (a + 16) = name ∧ w.word (a + 24) = value

/-- There is a region for the structure. -/
def Kind.Placed (S : Setting) (w : World) (a : Nat) (k : Kind) : Prop :=
  0 < k.size ∧ ∃ region ∈ w.known S, region.start = a ∧ k.size ≤ region.size

/-- **The invariant** of a run. -/
structure Good (S : Setting) (Γ : Typing) (w : World) : Prop where
  sound : (⟨w.arena, w.heap, w.regions⟩ : Arena.State).Sound
  preallocate : w.arena.preallocate = arenaPreallocate
  apart : ∀ block ∈ w.heap, block.storage.Disjoint S.stack
  range : ∀ block ∈ w.heap, block.storage.start + block.storage.size < 2 ^ 64
  placed : ∀ a k, Γ a = some k → k.Placed S w a
  holds : ∀ a k, Γ a = some k → k.Holds Γ w a

/-- What other code leaves of a world: every structure, and what was written. -/
structure Later (Γ : Typing) (w : World) (Γ' : Typing) (w' : World) : Prop where
  kept : ∀ a k, Γ a = some k → Γ' a = some k
  opened : ∀ a nameLength valueLength name value, Γ' a = some (.opened nameLength valueLength name value) →
    Γ a = some (.opened nameLength valueLength name value)
  written : ∀ address, w.written address = true → w'.written address = true

/-- A region that was allocated, and nothing was made of it yet. -/
structure Raw (S : Setting) (Γ : Typing) (w : World) (pointer size : Nat) : Prop where
  valid : pointer ≠ 0
  small : pointer < 2 ^ 64
  untyped : Γ pointer = none
  known : ⟨pointer, size⟩ ∈ w.known S
  largest : ∀ region ∈ w.known S, region.start = pointer → region.size ≤ size

variable {S : Setting} {Γ Γ' Γ'' : Typing} {w w' w'' : World} {a b offset size : Nat} {k : Kind} {octets : List UInt8}

theorem OrNull.mono {P Q : Nat → Prop} (h : OrNull P a) (weaken : P a → Q a) : OrNull Q a := h.imp id weaken

namespace Later

theorem refl (Γ : Typing) (w : World) : Later Γ w Γ w := ⟨fun _ _ => id, fun _ _ _ _ _ => id, fun _ => id⟩

theorem trans (h : Later Γ w Γ' w') (h' : Later Γ' w' Γ'' w'') : Later Γ w Γ'' w'' :=
  ⟨fun a k here => h'.kept a k (h.kept a k here),
    fun a nameLength valueLength name value here => h.opened a _ _ _ _ (h'.opened a nameLength valueLength name value here),
    fun address here => h'.written address (h.written address here)⟩

theorem put (h : Later Γ w Γ' w') (start : Nat) (octets : List UInt8) : Later Γ w Γ' (w'.put start octets) :=
  ⟨h.kept, h.opened, fun address here => World.written_put (h.written address here)⟩

theorem leads (h : Later Γ w Γ' w') : Γ.Leads Γ' := by
  constructor
  · exact fun a k here _ => h.kept a k here
  · intro a here
    rcases here with here | ⟨nameLength, valueLength, name, value, here⟩
    · exact Or.inl (h.kept a _ here)
    · exact Or.inr ⟨nameLength, valueLength, name, value, h.kept a _ here⟩

/-- A new structure that is not an open parameter. -/
theorem set (h : Later Γ w Γ' w') (untyped : Γ' a = none)
    (closed : ∀ nameLength valueLength name value, k ≠ .opened nameLength valueLength name value) : Later Γ w (Γ'.set a k) w' := by
  refine ⟨fun b k' here => ?_, fun b nameLength valueLength name value here => ?_, h.written⟩
  · have there := h.kept b k' here
    have other : b ≠ a := by
      intro same
      rw [same, untyped] at there
      cases there
    rwa [Typing.set_other k other]
  · have other : b ≠ a := by
      intro same
      rw [same, Typing.set_self] at here
      exact closed _ _ _ _ (Option.some.inj here)
    rw [Typing.set_other k other] at here
    exact h.opened b _ _ _ _ here

theorem filled (h : Later Γ w Γ' w') {start size : Nat} (filled : Filled w start size) : Filled w' start size :=
  fun address low high => h.written address (filled address low high)

end Later

/-! ## Structures that are not written to -/

theorem Filled.mono {start size : Nat} (h : Filled w start size) (written : ∀ address, w.written address = true → w'.written address = true) :
    Filled w' start size := fun address low high => written address (h address low high)

theorem StringOk.mono {allocated length buffer : Nat} (h : StringOk Γ w allocated length buffer) (leads : Γ.Leads Γ')
    (written : ∀ address, w.written address = true → w'.written address = true) : StringOk Γ' w' allocated length buffer :=
  ⟨h.small, h.filled.mono written, h.room.imp id leads.chars⟩

/-- A structure whose octets stay what they are stays what it is. -/
theorem Kind.Holds.mono (h : k.Holds Γ w a) (leads : Γ.Leads Γ')
    (written : ∀ address, w.written address = true → w'.written address = true)
    (same : ∀ address, a ≤ address → address < a + k.size → w'.memory address = w.memory address) : k.Holds Γ' w' a := by
  have word := World.word_same same
  have half := World.half_same same
  have first : 8 ≤ k.size → w'.word a = w.word a := fun fits => word 0 (by omega)
  cases k with
  | chars size => trivial
  | string =>
    simp only [Kind.size] at word first
    obtain ⟨filled, ok⟩ := h
    refine ⟨filled.mono written, ?_⟩
    rw [first (by decide), word 8 (by decide), word 16 (by decide)]
    exact ok.mono leads written
  | bucket =>
    simp only [Kind.size] at word first
    obtain ⟨filled, next, key, value⟩ := h
    refine ⟨filled.mono written, ?_⟩
    rw [first (by decide), word 16 (by decide), word 24 (by decide)]
    exact ⟨next.mono leads.bucket, leads.string key, value.mono leads.string⟩
  | slots count =>
    simp only [Kind.size] at word
    obtain ⟨filled, all⟩ := h
    refine ⟨filled.mono written, fun i less => ?_⟩
    rw [word (8 * i) (by omega)]
    exact (all i less).mono leads.bucket
  | param =>
    simp only [Kind.size] at word half first
    obtain ⟨filled, next, name, value⟩ := h
    refine ⟨filled.mono written, ?_⟩
    rw [first (by decide), word 16 (by decide), word 24 (by decide), half 8 (by decide), half 12 (by decide)]
    exact ⟨next.mono (leads.param _), name.mono written, value.mono written⟩
  | opened nameLength valueLength name value =>
    simp only [Kind.size] at word half first
    obtain ⟨filled, next, fields⟩ := h
    refine ⟨filled.mono written, ?_⟩
    rw [first (by decide), word 16 (by decide), word 24 (by decide), half 8 (by decide), half 12 (by decide)]
    exact ⟨next.mono (leads.param _), fields⟩

/-! ## One structure is written -/

theorem locals_within {frame : Nat} {region : Region} (there : region ∈ locals frame) :
    region.Within ⟨frame, 88⟩ ∧ frame < region.start ∧ 0 < region.size := by
  simp only [locals, List.mem_cons, List.not_mem_nil, or_false] at there
  simp only [Region.Within]
  rcases there with rfl | rfl | rfl | rfl
  · exact ⟨by dsimp only; omega, by dsimp only; omega, by dsimp only; decide⟩
  · exact ⟨by dsimp only; omega, by dsimp only; omega, by dsimp only; decide⟩
  · exact ⟨by dsimp only; omega, by dsimp only; omega, by dsimp only; decide⟩
  · exact ⟨by dsimp only; omega, by dsimp only; omega, by dsimp only; decide⟩

theorem locals_disjoint (frame : Nat) : (locals frame).Pairwise Region.Disjoint := by
  simp only [locals, List.pairwise_cons, List.mem_cons, List.not_mem_nil, or_false, Region.Disjoint]
  refine ⟨?_, ?_, ?_, by simp, List.Pairwise.nil⟩
  · rintro region (rfl | rfl | rfl) <;> dsimp only <;> omega
  · rintro region (rfl | rfl) <;> dsimp only <;> omega
  · rintro region rfl
    dsimp only
    omega

namespace Good

/-- A region of the arena is in the storage of a block. -/
theorem inside (good : Good S Γ w) {region : Region} (there : region ∈ w.regions) :
    ∃ block ∈ w.heap, region.Within block.storage ∧ block.storage.start + headerSize ≤ region.start := by
  obtain ⟨block, found, within⟩ := good.sound.inside region there
  have used := (good.sound.chained.bounded block found).used
  refine ⟨block, found, ?_⟩
  simp only [Region.Within, Block.taken, Block.storage] at within ⊢
  omega

/-- No region that the program knows reaches into another. -/
theorem pairwise_known (good : Good S Γ w) : (w.known S).Pairwise Region.Disjoint := by
  refine List.pairwise_append.mpr ⟨good.sound.disjoint, locals_disjoint S.frame, fun region there other there' => ?_⟩
  obtain ⟨block, found, within, -⟩ := good.inside there
  exact (good.apart block found).mono within (locals_within there').1

theorem known_disjoint (good : Good S Γ w) {region other : Region} (there : region ∈ w.known S) (there' : other ∈ w.known S)
    (different : region ≠ other) : region.Disjoint other :=
  good.pairwise_known.forall there there' different

/-- A pointer to a structure. -/
theorem pointer (good : Good S Γ w) (frame : S.frame + 88 < 2 ^ 64) (here : Γ a = some k) : a ≠ 0 ∧ a < 2 ^ 64 := by
  obtain ⟨positive, region, there, rfl, fits⟩ := good.placed a k here
  rcases List.mem_append.mp there with there | there
  · obtain ⟨block, found, within, low⟩ := good.inside there
    have range := good.range block found
    simp only [Region.Within, headerSize] at within low
    omega
  · obtain ⟨within, low, -⟩ := locals_within there
    simp only [Region.Within] at within
    omega

/-- **A store**: all other structures are in other regions. -/
theorem write (good : Good S Γ w) (bounds : InBounds S w a offset octets.length) (leads : Γ.Leads Γ') (others : ∀ b, b ≠ a → Γ' b = Γ b)
    (here : ∀ k, Γ' a = some k → k.Placed S w a ∧ k.Holds Γ' (w.put (a + offset) octets) a) : Good S Γ' (w.put (a + offset) octets) := by
  refine ⟨good.sound, good.preallocate, good.apart, good.range, fun b k there => ?_, fun b k there => ?_⟩
  · by_cases same : b = a
    · subst same
      exact (here k there).1
    · exact good.placed b k (others b same ▸ there)
  · by_cases same : b = a
    · subst same
      exact (here k there).2
    · rw [others b same] at there
      apply (good.holds b k there).mono leads fun address => World.written_put
      intro address low high
      apply Memory.write_outside
      obtain ⟨target, known, start, fits⟩ := bounds
      obtain ⟨positive, source, known', start', fits'⟩ := good.placed b k there
      have apart := good.known_disjoint known known' fun equal => same (by rw [← start, ← start', equal])
      simp only [Region.Disjoint] at apart
      omega

/-- A store that changes no kind. -/
theorem put (good : Good S Γ w) (bounds : InBounds S w a offset octets.length)
    (here : ∀ k, Γ a = some k → k.Holds Γ (w.put (a + offset) octets) a) : Good S Γ (w.put (a + offset) octets) :=
  good.write bounds (.refl Γ) (fun _ _ => rfl) fun k there => ⟨good.placed a k there, here k there⟩

/-- A structure that is there without a store, or another one. -/
theorem declare (good : Good S Γ w) (leads : Γ.Leads (Γ.set a k)) (placed : k.Placed S w a) (holds : k.Holds (Γ.set a k) w a) :
    Good S (Γ.set a k) w := by
  refine ⟨good.sound, good.preallocate, good.apart, good.range, fun b k' there => ?_, fun b k' there => ?_⟩
  · by_cases same : b = a
    · subst same
      cases Option.some.inj ((Typing.set_self Γ b k).symm.trans there)
      exact placed
    · rw [Typing.set_other k same] at there
      exact good.placed b k' there
  · by_cases same : b = a
    · subst same
      cases Option.some.inj ((Typing.set_self Γ b k).symm.trans there)
      exact holds
    · rw [Typing.set_other k same] at there
      exact (good.holds b k' there).mono leads (fun _ => id) fun _ _ _ => rfl

/-- A store that makes a structure of a region, or another structure. -/
theorem retype (good : Good S Γ w) (bounds : InBounds S w a offset octets.length) (leads : Γ.Leads (Γ.set a k)) (placed : k.Placed S w a)
    (holds : k.Holds (Γ.set a k) (w.put (a + offset) octets) a) : Good S (Γ.set a k) (w.put (a + offset) octets) := by
  refine good.write bounds leads (fun b other => Typing.set_other k other) fun k' there => ?_
  cases Option.some.inj ((Typing.set_self Γ a k).symm.trans there)
  exact ⟨placed, holds⟩

end Good

/-! ## Allocation -/

theorem Raw.put (h : Raw S Γ w a size) (start : Nat) (octets : List UInt8) : Raw S Γ (w.put start octets) a size :=
  ⟨h.valid, h.small, h.untyped, h.known, h.largest⟩

theorem Raw.set (h : Raw S Γ w a size) (other : a ≠ b) (k : Kind) : Raw S (Γ.set b k) w a size :=
  ⟨h.valid, h.small, (Typing.set_other k other).trans h.untyped, h.known, h.largest⟩

/-- A local of which nothing was made yet. -/
theorem Good.raw_local (good : Good S Γ w) (frame : S.frame + 88 < 2 ^ 64) {region : Region} (there : region ∈ locals S.frame)
    (untyped : Γ region.start = none) : Raw S Γ w region.start region.size := by
  obtain ⟨within, low, positive⟩ := locals_within there
  have known : region ∈ w.known S := List.mem_append_right _ there
  simp only [Region.Within] at within
  refine ⟨by omega, by omega, untyped, known, fun other known' start => ?_⟩
  by_cases same : other = region
  · rw [same]
  · have apart := good.known_disjoint known' known same
    simp only [Region.Disjoint] at apart
    omega

/-- An access to a raw region. -/
theorem Raw.fits (h : Raw S Γ w a size) (bounds : InBounds S w a offset b) : offset + b ≤ size := by
  obtain ⟨region, known, start, fits⟩ := bounds
  have := h.largest region known start
  omega

namespace Good

variable {arena : SlArena} {heap : Heap} {pointer : Nat}

theorem kept_preallocate (good : Good S Γ w) {malloc : Nat → Option Nat} (fresh : Fresh malloc w.heap) (requestable : Requestable size)
    {buffer : Option Nat} (result : Arena.allocate malloc w.arena w.heap size = some (buffer, arena, heap)) :
    arena.preallocate = w.arena.preallocate := by
  rcases allocate_cases good.sound.chained fresh requestable with
    ⟨_, _, _, -, -, returns⟩ | ⟨-, returns⟩ | ⟨new, _, -, -, -, -, -, -, returns⟩
  · cases returns.symm.trans result
    rfl
  · cases returns.symm.trans result
    rfl
  · by_cases fits : size ≤ new.allocated
    · rw [if_pos fits] at returns
      cases returns.symm.trans result
      rfl
    · rw [if_neg fits] at returns
      cases returns.symm.trans result
      rfl

/-- The world behind a call of `sl_arena_allocate`, whatever it is for. -/
theorem grown (sound : S.Sound) (good : Good S Γ w) (requestable : Requestable size) {buffer : Option Nat}
    (result : Arena.allocate (S.malloc w.calls w.heap) w.arena w.heap size = some (buffer, arena, heap)) (purposes : List Purpose) :
    Good S Γ { w with arena, heap, calls := w.calls + 1, regions := returned size w.regions buffer, purposes } := by
  obtain ⟨_, _, _, returns, sound', -, blocks, -⟩ := good.sound.allocate (sound.fresh w.calls w.heap) requestable
  cases returns.symm.trans result
  have kept := (good.kept_preallocate (sound.fresh w.calls w.heap) requestable result).trans good.preallocate
  refine ⟨sound', kept, fun block there => ?_, fun block there => ?_, fun a k here => ?_, fun a k here => ?_⟩
  · rcases blocks block there with ⟨old, there, same⟩ | ⟨made, asked⟩
    · exact same ▸ good.apart old there
    · have apart := sound.apart _ _ _ _ made
      rwa [← asked] at apart
  · rcases blocks block there with ⟨old, there, same⟩ | ⟨made, asked⟩
    · exact same ▸ good.range old there
    · have range := sound.range _ _ _ _ made
      rwa [← asked] at range
  · obtain ⟨positive, region, there, rest⟩ := good.placed a k here
    refine ⟨positive, region, ?_, rest⟩
    rcases List.mem_append.mp there with there | there
    · cases buffer with
      | none => exact List.mem_append_left _ there
      | some pointer => exact List.mem_append_left _ (List.mem_cons_of_mem _ there)
    · exact List.mem_append_right _ there
  · exact (good.holds a k here).mono (.refl Γ) (fun _ => id) fun _ _ _ => rfl

/-- What was allocated starts where nothing is. -/
theorem grown_raw (sound : S.Sound) (good : Good S Γ w) (requestable : Requestable size)
    (result : Arena.allocate (S.malloc w.calls w.heap) w.arena w.heap size = some (some pointer, arena, heap)) :
    (∀ region ∈ w.known S, region.start = pointer → region.size = 0) ∧ pointer ≠ 0 ∧ pointer < 2 ^ 64 := by
  have good' := good.grown sound requestable result w.purposes
  obtain ⟨_, _, _, returns, sound', found, -, -⟩ := good.sound.allocate (sound.fresh w.calls w.heap) requestable
  cases returns.symm.trans result
  obtain ⟨block, there, low, free⟩ := found pointer rfl
  have used := (sound'.chained.bounded block there).used
  have range := good'.range block there
  simp only [Block.free, Block.storage, headerSize] at low free range
  refine ⟨fun region known start => ?_, by omega, by omega⟩
  rcases List.mem_append.mp known with known | known
  · obtain ⟨other, there', within⟩ := sound'.inside region (List.mem_cons_of_mem _ known)
    have used' := (sound'.chained.bounded other there').used
    simp only [Region.Within, Block.taken, headerSize] at within
    by_cases same : other = block
    · subst same
      have apart := (List.pairwise_cons.mp sound'.disjoint).1 region known
      simp only [Region.Disjoint] at apart
      omega
    · have : Std.Symm fun block other : Block => block.storage.Disjoint other.storage := ⟨fun _ _ => Region.Disjoint.symm⟩
      have apart : other.storage.Disjoint block.storage := sound'.chained.apart.forall there' there same
      simp only [Region.Disjoint, Block.storage, headerSize] at apart
      omega
  · have apart := good'.apart block there
    obtain ⟨within, above, -⟩ := locals_within known
    simp only [Region.Disjoint, Region.Within, Setting.stack, Block.storage, headerSize] at apart within
    omega

end Good

end Cpptrw.Leftover
