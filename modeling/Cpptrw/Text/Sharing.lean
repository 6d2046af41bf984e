import Cpptrw.Lib.Reach
import Cpptrw.Lib.Region
import Cpptrw.Text.Str

/-!
# Strings in memory (`sl_string.c`)

Here an `sl_string` has a pointer to its buffer, and two strings can have one
buffer: a view begins where another string does and has no room behind its
octets. What a string should contain is kept beside it as `history`. The arena
is a parameter that is asked with the regions in use; a caller's buffers are in
use from the start, and nothing but the functions below writes to memory. A
header (`allocated`, `length`, `buffer`) is a value: the arena hands out its
place, but the stores to it are not in this memory.
-/

namespace Cpptrw.Text.Sharing

open Lib Arena

/-- `sl_string`. -/
structure SlString where
  allocated : Nat
  length : Nat
  buffer : Nat
  deriving DecidableEq, Repr

/-- Memory, and the regions of it that are in use. -/
structure Store where
  memory : Memory
  regions : List Region

/-- What `sl_arena_allocate` answers. -/
abbrev Allocator := List Region → Nat → Option Nat

/-- A call of `sl_arena_allocate`. -/
def Allocator.allocate (arena : Allocator) (store : Store) (size : Nat) : Option Nat × Store :=
  match arena store.regions size with
  | none => (none, store)
  | some pointer => (some pointer, { store with regions := ⟨pointer, size⟩ :: store.regions })

/-- `sl_string_init_with_buffer`. -/
def initWithBuffer (buffer length : Nat) : SlString := ⟨length, length, buffer⟩

/-- `sl_string_create_from_buffer`. A result `none` is an overlapping `memcpy`. -/
def createFromBuffer (arena : Allocator) (store : Store) (buffer length preallocate : Nat) : Option (Option SlString × Store) :=
  match arena.allocate store sizeofString with
  | (none, store) => some (none, store)
  | (some _, store) =>
    let size := pow2Size (if length ≤ preallocate then preallocate else wrap64 (length <<< 1))
    match arena.allocate store size with
    | (none, store) => some (none, store)
    | (some target, store) => do
      let memory ← store.memory.copy target buffer length
      let memory := memory.fill (target + length) 0 (sub64 size length)
      return (some ⟨size, length, target⟩, { store with memory })

/-- `sl_string_create_with_buffer`. -/
def createWithBuffer (arena : Allocator) (store : Store) (buffer length : Nat) : Option SlString × Store :=
  match arena.allocate store sizeofString with
  | (none, store) => (none, store)
  | (some _, store) => (some ⟨length, length, buffer⟩, store)

/-- `sl_string_append_with_buffer`; `false` is the return value `-1`. -/
def appendWithBuffer (arena : Allocator) (store : Store) (string : SlString) (buffer length : Nat) :
    Option (Bool × SlString × Store) := do
  if wrap64 (string.length + length) ≤ string.allocated then
    let memory ← store.memory.copy (string.buffer + string.length) buffer length
    return (true, { string with length := wrap64 (string.length + length) }, { store with memory })
  else
    let size := pow2Size (wrap64 (wrap64 (string.length + length) <<< 1))
    match arena.allocate store size with
    | (none, store) => return (false, string, store)
    | (some target, store) =>
      let memory ← store.memory.copy target string.buffer string.length
      let memory ← memory.copy (target + string.length) buffer length
      let memory := memory.fill (target + string.length + length) 0 (sub64 (sub64 size string.length) length)
      return (true, ⟨size, wrap64 (string.length + length), target⟩, { store with memory })

/-- `sl_string_create_from_string`. -/
def createFromString (arena : Allocator) (store : Store) (string : SlString) (preallocate : Nat) :
    Option (Option SlString × Store) :=
  createFromBuffer arena store string.buffer string.length preallocate

/-- `sl_string_create_with_string`. -/
def createWithString (arena : Allocator) (store : Store) (string : SlString) : Option SlString × Store :=
  createWithBuffer arena store string.buffer string.length

/-- `sl_string_append_with_string`. -/
def appendWithString (arena : Allocator) (store : Store) (destination source : SlString) : Option (Bool × SlString × Store) :=
  appendWithBuffer arena store destination source.buffer source.length

/-! ## Programs with strings -/

/-- A string, and what it should contain. -/
structure Entry where
  string : SlString
  history : List UInt8

structure State extends Store where
  strings : List Entry := []

/-- The octets of a string, as they are in memory. -/
def Store.octets (store : Store) (string : SlString) : List UInt8 := store.memory.read string.buffer string.length

/-- The calls of a program. A string is known by its number. -/
inductive Call
  | createFromBuffer (buffer length preallocate : Nat)
  | createFromString (source preallocate : Nat)
  | initWithBuffer (buffer length : Nat)
  | createWithBuffer (buffer length : Nat)
  | createWithString (source : Nat)
  | appendWithBuffer (string buffer length : Nat)
  | appendWithString (destination source : Nat)

/-- A string was created, or `NULL` was returned. -/
def State.create (s : State) (history : List UInt8) : Option SlString × Store → Bool × State
  | (none, store) => (false, { store with strings := s.strings })
  | (some string, store) => (true, { store with strings := s.strings ++ [⟨string, history⟩] })

/-- An append to string `n` has returned. -/
def State.append (s : State) (n : Nat) (entry : Entry) (octets : List UInt8) : Bool × SlString × Store → Bool × State
  | (false, string, store) => (false, { store with strings := s.strings.set n { entry with string } })
  | (true, string, store) => (true, { store with strings := s.strings.set n ⟨string, entry.history ++ octets⟩ })

/-- One call: whether it succeeds, and the state behind it. -/
def Call.run (arena : Allocator) (s : State) : Call → Option (Bool × State)
  | .createFromBuffer buffer length preallocate => do
    let result ← Sharing.createFromBuffer arena s.toStore buffer length preallocate
    return s.create (s.memory.read buffer length) result
  | .createFromString source preallocate => do
    let entry ← s.strings[source]?
    let result ← Sharing.createFromString arena s.toStore entry.string preallocate
    return s.create (s.octets entry.string) result
  | .initWithBuffer buffer length =>
    return s.create (s.memory.read buffer length) (some (Sharing.initWithBuffer buffer length), s.toStore)
  | .createWithBuffer buffer length =>
    return s.create (s.memory.read buffer length) (Sharing.createWithBuffer arena s.toStore buffer length)
  | .createWithString source => do
    let entry ← s.strings[source]?
    return s.create (s.octets entry.string) (Sharing.createWithString arena s.toStore entry.string)
  | .appendWithBuffer string buffer length => do
    let entry ← s.strings[string]?
    let result ← Sharing.appendWithBuffer arena s.toStore entry.string buffer length
    return s.append string entry (s.memory.read buffer length) result
  | .appendWithString destination source => do
    let entry ← s.strings[destination]?
    let other ← s.strings[source]?
    let result ← Sharing.appendWithString arena s.toStore entry.string other.string
    return s.append destination entry (s.octets other.string) result

/-! ## Who may look where -/

namespace SlString

/-- The octets of the string. -/
def filled (string : SlString) : Region := ⟨string.buffer, string.length⟩

/-- The room behind the octets. -/
def room (string : SlString) : Region := ⟨string.buffer + string.length, string.allocated - string.length⟩

/-- The octets and the room. -/
def whole (string : SlString) : Region := ⟨string.buffer, string.allocated⟩

/-- A region where the string will not write, if it has any room at all. -/
def Spares (string : SlString) (region : Region) : Prop := string.length < string.allocated → string.room.Disjoint region

variable {string : SlString} {region part : Region}

theorem Spares.mono (h : string.Spares region) (within : part.Within region) : string.Spares part :=
  fun more => (h more).mono (.refl _) within

theorem spares_filled (string : SlString) : string.Spares string.filled := by
  intro _
  simp only [Region.Disjoint, room, filled]
  omega

theorem spares_of_disjoint (h : string.whole.Disjoint region) : string.Spares region := by
  intro _
  refine h.mono ?_ (.refl _)
  simp only [Region.Within, room, whole]
  omega

theorem filled_within (fits : string.length ≤ string.allocated) : string.filled.Within string.whole := by
  simp only [Region.Within, filled, whole]
  omega

end SlString

/-- What a program may read: a part of a buffer of the caller, or of the octets of a string. -/
def Readable (callers : List Region) (s : State) (region : Region) : Prop :=
  (∃ caller ∈ callers, region.Within caller) ∨ ∃ entry ∈ s.strings, region.Within entry.string.filled

/-- **The invariant.** The room of a string is its own: no other string has
octets or room there, and no buffer of the caller is there. -/
structure Sound (callers : List Region) (memory : Memory) (s : State) : Prop where
  lengths : ∀ entry ∈ s.strings, entry.string.length ≤ entry.string.allocated ∧ entry.string.length < 2 ^ 61
  inside : ∀ entry ∈ s.strings, ∃ region ∈ s.regions, entry.string.whole.Within region
  contents : ∀ entry ∈ s.strings, s.octets entry.string = entry.history
  apart : ∀ (n m : Nat) (entry other : Entry), n ≠ m → s.strings[n]? = some entry → s.strings[m]? = some other →
    entry.string.Spares other.string.whole
  supplied : ∀ entry ∈ s.strings, ∀ caller ∈ callers, entry.string.Spares caller
  known : ∀ caller ∈ callers, caller ∈ s.regions
  untouched : ∀ caller ∈ callers, s.memory.read caller.start caller.size = memory.read caller.start caller.size

variable {callers : List Region} {memory : Memory} {s : State} {n : Nat} {entry : Entry} {region : Region}

theorem Readable.inside (h : Sound callers memory s) (readable : Readable callers s region) :
    ∃ outer ∈ s.regions, region.Within outer := by
  rcases readable with ⟨caller, there, within⟩ | ⟨entry, there, within⟩
  · exact ⟨caller, h.known caller there, within⟩
  · obtain ⟨outer, found, whole⟩ := h.inside entry there
    exact ⟨outer, found, (within.trans (SlString.filled_within (h.lengths entry there).1)).trans whole⟩

/-- No string writes where a program may read. -/
theorem Readable.spared (h : Sound callers memory s) (readable : Readable callers s region) (here : s.strings[n]? = some entry) :
    entry.string.Spares region := by
  have listed := List.mem_of_getElem? here
  rcases readable with ⟨caller, there, within⟩ | ⟨other, there, within⟩
  · exact (h.supplied entry listed caller there).mono within
  · obtain ⟨m, found⟩ := List.mem_iff_getElem?.mp there
    by_cases same : n = m
    · subst same
      cases here.symm.trans found
      exact entry.string.spares_filled.mono within
    · have fits := (h.lengths other there).1
      exact (h.apart n m entry other same here found).mono (within.trans (SlString.filled_within fits))

/-- More regions are in use, and the octets in the old ones are the same. -/
structure Store.Extends (store store' : Store) : Prop where
  regions : ∀ region ∈ store.regions, region ∈ store'.regions
  memory : ∀ part : Region, (∃ region ∈ store.regions, part.Within region) →
    store'.memory.read part.start part.size = store.memory.read part.start part.size

/-- A further string, which may be a view. -/
theorem Sound.push (h : Sound callers memory s) {store : Store} (grown : s.toStore.Extends store) {string : SlString}
    {history : List UInt8} (lengths : string.length ≤ string.allocated ∧ string.length < 2 ^ 61)
    (inside : ∃ region ∈ store.regions, string.whole.Within region) (contents : store.octets string = history)
    (own : ∀ region ∈ s.regions, string.Spares region) (others : ∀ entry ∈ s.strings, entry.string.Spares string.whole) :
    Sound callers memory { store with strings := s.strings ++ [⟨string, history⟩] } := by
  have old : ∀ entry ∈ s.strings ++ [⟨string, history⟩], entry ∈ s.strings ∨ entry = ⟨string, history⟩ := by
    intro entry there
    rcases List.mem_append.mp there with there | there
    · exact Or.inl there
    · exact Or.inr (List.mem_singleton.mp there)
  have numbered : ∀ n entry, (s.strings ++ [⟨string, history⟩])[n]? = some entry →
      s.strings[n]? = some entry ∨ n = s.strings.length ∧ entry = ⟨string, history⟩ := by
    intro n entry here
    rcases Nat.lt_trichotomy n s.strings.length with less | same | more
    · rw [List.getElem?_append_left less] at here
      exact Or.inl here
    · subst same
      rw [List.getElem?_concat_length] at here
      exact Or.inr ⟨rfl, (Option.some.inj here).symm⟩
    · rw [List.getElem?_eq_none (by simp; omega)] at here
      cases here
  constructor
  · intro entry there
    rcases old entry there with there | rfl
    · exact h.lengths entry there
    · exact lengths
  · intro entry there
    rcases old entry there with there | rfl
    · obtain ⟨region, found, within⟩ := h.inside entry there
      exact ⟨region, grown.regions region found, within⟩
    · exact inside
  · intro entry there
    rcases old entry there with there | rfl
    · obtain ⟨region, found, within⟩ := h.inside entry there
      have filled := SlString.filled_within (h.lengths entry there).1
      exact (grown.memory entry.string.filled ⟨region, found, filled.trans within⟩).trans (h.contents entry there)
    · exact contents
  · intro n m entry other different here there
    rcases numbered n entry here with here' | ⟨rfl, rfl⟩ <;> rcases numbered m other there with there' | ⟨rfl, rfl⟩
    · exact h.apart n m entry other different here' there'
    · exact others entry (List.mem_of_getElem? here')
    · obtain ⟨region, found, within⟩ := h.inside other (List.mem_of_getElem? there')
      exact (own region found).mono within
    · exact absurd rfl different
  · intro entry there caller listed
    rcases old entry there with there | rfl
    · exact h.supplied entry there caller listed
    · exact own caller (h.known caller listed)
  · exact fun caller listed => grown.regions caller (h.known caller listed)
  · intro caller listed
    exact (grown.memory caller ⟨caller, h.known caller listed, .refl _⟩).trans (h.untouched caller listed)

/-- String `n` has changed, and no other. -/
theorem Sound.set (h : Sound callers memory s) (here : s.strings[n]? = some entry) {store : Store} {string : SlString}
    {history : List UInt8} (regions : ∀ region ∈ s.regions, region ∈ store.regions)
    (lengths : string.length ≤ string.allocated ∧ string.length < 2 ^ 61)
    (inside : ∃ region ∈ store.regions, string.whole.Within region) (contents : store.octets string = history)
    (kept : ∀ m other, m ≠ n → s.strings[m]? = some other → store.octets other.string = s.octets other.string)
    (own : ∀ m other, m ≠ n → s.strings[m]? = some other → string.Spares other.string.whole)
    (others : ∀ m other, m ≠ n → s.strings[m]? = some other → other.string.Spares string.whole)
    (supplied : ∀ caller ∈ callers, string.Spares caller)
    (untouched : ∀ caller ∈ callers, store.memory.read caller.start caller.size = s.memory.read caller.start caller.size) :
    Sound callers memory { store with strings := s.strings.set n ⟨string, history⟩ } := by
  have fits : n < s.strings.length := (List.getElem?_eq_some_iff.mp here).1
  have numbered : ∀ m other, (s.strings.set n ⟨string, history⟩)[m]? = some other →
      m = n ∧ other = ⟨string, history⟩ ∨ m ≠ n ∧ s.strings[m]? = some other := by
    intro m other there
    by_cases same : m = n
    · subst same
      rw [List.getElem?_set_self fits] at there
      exact Or.inl ⟨rfl, (Option.some.inj there).symm⟩
    · rw [List.getElem?_set_ne (Ne.symm same)] at there
      exact Or.inr ⟨same, there⟩
  have listed : ∀ other ∈ s.strings.set n ⟨string, history⟩,
      other = ⟨string, history⟩ ∨ ∃ m, m ≠ n ∧ s.strings[m]? = some other := by
    intro other there
    obtain ⟨m, found⟩ := List.mem_iff_getElem?.mp there
    rcases numbered m other found with ⟨-, same⟩ | ⟨different, found⟩
    · exact Or.inl same
    · exact Or.inr ⟨m, different, found⟩
  constructor
  · intro other there
    rcases listed other there with rfl | ⟨m, -, found⟩
    · exact lengths
    · exact h.lengths other (List.mem_of_getElem? found)
  · intro other there
    rcases listed other there with rfl | ⟨m, -, found⟩
    · exact inside
    · obtain ⟨region, used, within⟩ := h.inside other (List.mem_of_getElem? found)
      exact ⟨region, regions region used, within⟩
  · intro other there
    rcases listed other there with rfl | ⟨m, different, found⟩
    · exact contents
    · exact (kept m other different found).trans (h.contents other (List.mem_of_getElem? found))
  · intro m m' first second different found found'
    rcases numbered m first found with ⟨same, rfl⟩ | ⟨away, there⟩ <;>
      rcases numbered m' second found' with ⟨same', rfl⟩ | ⟨away', there'⟩
    · exact absurd (same.trans same'.symm) different
    · exact own m' second away' there'
    · exact others m first away there
    · exact h.apart m m' first second different there there'
  · intro other there caller known
    rcases listed other there with rfl | ⟨m, -, found⟩
    · exact supplied caller known
    · exact h.supplied other (List.mem_of_getElem? found) caller known
  · exact fun caller known => regions caller (h.known caller known)
  · exact fun caller known => (untouched caller known).trans (h.untouched caller known)

/-! ## Calls -/

/-- The arena returns regions that are disjoint from those in use, or `NULL`. -/
def Allocator.Fresh (arena : Allocator) : Prop :=
  ∀ regions size pointer, arena regions size = some pointer → ∀ region ∈ regions, (⟨pointer, size⟩ : Region).Disjoint region

variable {arena : Allocator} {store store' : Store}

theorem Store.Extends.refl (store : Store) : store.Extends store := ⟨fun _ => id, fun _ _ => rfl⟩

/-- A call of `sl_arena_allocate` only adds a region. -/
theorem Allocator.allocate_extends (arena : Allocator) (store : Store) (size : Nat) :
    store.Extends (arena.allocate store size).2 := by
  unfold Allocator.allocate
  split
  · exact .refl store
  · exact ⟨fun _ => List.mem_cons_of_mem _, fun _ _ => rfl⟩

theorem Store.Extends.trans {store'' : Store} (h : store.Extends store') (h' : store'.Extends store'') : store.Extends store'' := by
  refine ⟨fun region there => h'.regions region (h.regions region there), fun part there => ?_⟩
  obtain ⟨region, used, within⟩ := there
  exact (h'.memory part ⟨region, h.regions region used, within⟩).trans (h.memory part ⟨region, used, within⟩)

/-- A string with these octets in a region of its own. -/
structure Placed (store store' : Store) (string : SlString) (octets : List UInt8) : Prop where
  grown : store.Extends store'
  length : string.length = octets.length
  fits : string.length ≤ string.allocated
  mine : string.whole ∈ store'.regions
  disjoint : ∀ region ∈ store.regions, string.whole.Disjoint region
  octets : store'.octets string = octets

/-- Octets, more octets and zeros, written one behind the other. -/
theorem read_filled (memory : Memory) (target : Nat) (front back : List UInt8) (octet : UInt8) (rest : Nat) :
    (((memory.write target front).write (target + front.length) back).fill (target + front.length + back.length) octet rest).read
      target (front.length + back.length) = front ++ back := by
  have zeros : ∀ (m : Memory) (start size : Nat), start + size ≤ target + front.length + back.length →
      (m.fill (target + front.length + back.length) octet rest).read start size = m.read start size := by
    intro m start size ends
    refine @Memory.read_write_disjoint m _ _ ⟨start, size⟩ ?_
    exact Or.inl ends
  rw [Memory.read_append, zeros _ _ _ (by omega), zeros _ _ _ (by omega), Memory.read_write_self]
  congr 1
  refine (@Memory.read_write_disjoint _ _ back ⟨target, front.length⟩ ?_).trans (Memory.read_write_self ..)
  exact Or.inl (Nat.le_refl _)

/-- A region that nobody had is filled with octets. -/
theorem placed_of_fresh {target size : Nat} (disjoint : ∀ region ∈ store.regions, (⟨target, size⟩ : Region).Disjoint region)
    {memory : Memory} {octets : List UInt8} (fits : octets.length ≤ size)
    (same : ∀ address, address < target ∨ target + size ≤ address → memory address = store.memory address)
    (here : memory.read target octets.length = octets) :
    Placed store { memory, regions := ⟨target, size⟩ :: store.regions } ⟨size, octets.length, target⟩ octets := by
  refine ⟨⟨fun _ => List.mem_cons_of_mem _, fun part there => ?_⟩, rfl, fits, List.mem_cons_self, disjoint, here⟩
  obtain ⟨region, used, within⟩ := there
  have apart : part.Disjoint ⟨target, size⟩ := (disjoint region used).symm.mono within (.refl _)
  unfold Region.Disjoint at apart
  apply Memory.read_congr
  intro address low high
  apply same
  dsimp only at apart
  omega

theorem Placed.of_extends {string : SlString} {octets : List UInt8} (h : store.Extends store') {store'' : Store}
    (placed : Placed store' store'' string octets) : Placed store store'' string octets :=
  ⟨h.trans placed.grown, placed.length, placed.fits, placed.mine, fun region used => placed.disjoint region (h.regions region used),
    placed.octets⟩

/-- **`sl_string_create_from_buffer`** refuses, or places a copy. -/
theorem createFromBuffer_cases (fresh : arena.Fresh) {buffer length preallocate : Nat}
    (inside : ∃ region ∈ store.regions, (⟨buffer, length⟩ : Region).Within region) (small : length < 2 ^ 61)
    (small' : preallocate < 2 ^ 61) :
    (∃ store', createFromBuffer arena store buffer length preallocate = some (none, store') ∧ store.Extends store') ∨
    ∃ string store', createFromBuffer arena store buffer length preallocate = some (some string, store') ∧
      Placed store store' string (store.memory.read buffer length) := by
  have header := arena.allocate_extends store sizeofString
  unfold createFromBuffer
  split
  · rename_i store₁ refused
    rw [refused] at header
    exact Or.inl ⟨store₁, rfl, header⟩
  · rename_i pointer store₁ made
    rw [made] at header
    have enough : length ≤ pow2Size (if length ≤ preallocate then preallocate else wrap64 (length <<< 1)) := by
      rw [Nat.shiftLeft_eq]
      split
      · exact Nat.le_trans ‹_› (le_pow2Size (by omega))
      · rw [wrap64_of_lt (by omega)]
        refine Nat.le_trans ?_ (le_pow2Size (by omega))
        omega
    have bounded := pow2Size_le (if length ≤ preallocate then preallocate else wrap64 (length <<< 1))
    generalize pow2Size (if length ≤ preallocate then preallocate else wrap64 (length <<< 1)) = size at enough bounded
    dsimp only
    cases answer : arena store₁.regions size with
    | none =>
      refine Or.inl ⟨store₁, ?_, header⟩
      rw [Allocator.allocate, answer]
    | some target =>
      have disjoint := fresh _ _ _ answer
      obtain ⟨region, used, within⟩ := inside
      have apart : (⟨target, length⟩ : Region).Disjoint ⟨buffer, length⟩ :=
        (disjoint region (header.regions region used)).mono ⟨Nat.le_refl _, Nat.add_le_add_left enough _⟩ within
      have read := header.memory ⟨buffer, length⟩ ⟨region, used, within⟩
      have octets := Memory.length_read store.memory buffer length
      have placed := @placed_of_fresh store₁ target size disjoint
        ((store₁.memory.write target (store₁.memory.read buffer length)).fill (target + length) 0 (size - length))
        (store.memory.read buffer length) (by omega) ?_ ?_
      · rw [octets] at placed
        refine Or.inr ⟨_, _, ?_, placed.of_extends header⟩
        rw [Allocator.allocate, answer]
        dsimp only
        rw [Memory.copy, if_pos apart, sub64_of_le (by omega) enough]
        rfl
      · intro address outside
        rw [Memory.fill, Memory.write_outside (by rw [List.length_replicate]; omega), Memory.write_outside]
        rw [Memory.length_read]
        omega
      · rw [octets, Memory.fill]
        refine (@Memory.read_write_disjoint _ _ _ ⟨target, length⟩ (Or.inl (Nat.le_refl _))).trans ?_
        have := Memory.read_write_self store₁.memory target (store₁.memory.read buffer length)
        rw [Memory.length_read] at this
        exact this.trans read

/-- **`sl_string_append_with_buffer`** refuses, or writes into the room of the string, or places a longer copy. -/
theorem appendWithBuffer_cases (fresh : arena.Fresh) {string : SlString} {buffer length : Nat}
    (inside : ∃ region ∈ store.regions, string.filled.Within region)
    (inside' : ∃ region ∈ store.regions, (⟨buffer, length⟩ : Region).Within region)
    (spared : string.Spares ⟨buffer, length⟩) (small : string.length + length < 2 ^ 61) :
    appendWithBuffer arena store string buffer length = some (false, string, store) ∨
    (string.length + length ≤ string.allocated ∧
      appendWithBuffer arena store string buffer length = some (true, { string with length := string.length + length },
        { store with memory := store.memory.write (string.buffer + string.length) (store.memory.read buffer length) })) ∨
    ∃ string' store', appendWithBuffer arena store string buffer length = some (true, string', store') ∧
      Placed store store' string' (store.octets string ++ store.memory.read buffer length) := by
  unfold appendWithBuffer
  rw [wrap64_of_lt (by omega : string.length + length < 2 ^ 64)]
  by_cases room : string.length + length ≤ string.allocated
  · have apart : (⟨string.buffer + string.length, length⟩ : Region).Disjoint ⟨buffer, length⟩ := by
      by_cases empty : length = 0
      · subst empty
        exact Nat.le_total _ _
      · refine (spared (by omega)).mono ?_ (.refl _)
        simp only [Region.Within, SlString.room]
        omega
    refine Or.inr (Or.inl ⟨room, ?_⟩)
    rw [if_pos room, Memory.copy, if_pos apart]
    rfl
  · rw [if_neg room, Nat.shiftLeft_eq, wrap64_of_lt (by omega)]
    have enough : string.length + length ≤ pow2Size ((string.length + length) * 2 ^ 1) :=
      Nat.le_trans (by omega) (le_pow2Size (by omega))
    have bounded := pow2Size_le ((string.length + length) * 2 ^ 1)
    generalize pow2Size ((string.length + length) * 2 ^ 1) = size at enough bounded
    dsimp only
    cases answer : arena store.regions size with
    | none =>
      refine Or.inl ?_
      rw [Allocator.allocate, answer]
      rfl
    | some target =>
      have disjoint := fresh _ _ _ answer
      obtain ⟨region, used, within⟩ := inside
      obtain ⟨region', used', within'⟩ := inside'
      have apart : (⟨target, string.length⟩ : Region).Disjoint ⟨string.buffer, string.length⟩ :=
        (disjoint region used).mono ⟨Nat.le_refl _, by dsimp only; omega⟩ within
      have apart' : (⟨target + string.length, length⟩ : Region).Disjoint ⟨buffer, length⟩ :=
        (disjoint region' used').mono ⟨by dsimp only; omega, by dsimp only; omega⟩ within'
      have left : sub64 (sub64 size string.length) length = size - string.length - length := by
        have front : sub64 size string.length = size - string.length := sub64_of_le (by omega) (by omega)
        rw [front]
        exact sub64_of_le (by omega) (by omega)
      have front := Memory.length_read store.memory string.buffer string.length
      have back := Memory.length_read store.memory buffer length
      have kept : (store.memory.write target (store.memory.read string.buffer string.length)).read buffer length =
          store.memory.read buffer length := by
        refine @Memory.read_write_disjoint _ _ _ ⟨buffer, length⟩ ?_
        rw [front]
        have part : (⟨target, string.length⟩ : Region).Within ⟨target, size⟩ := ⟨Nat.le_refl _, by dsimp only; omega⟩
        exact ((disjoint region' used').mono part within').symm
      have all := read_filled store.memory target (store.memory.read string.buffer string.length) (store.memory.read buffer length) 0
        (size - string.length - length)
      rw [front, back] at all
      have placed := @placed_of_fresh store target size disjoint
        (((store.memory.write target (store.memory.read string.buffer string.length)).write (target + string.length)
          (store.memory.read buffer length)).fill (target + string.length + length) 0 (size - string.length - length))
        (store.octets string ++ store.memory.read buffer length) ?_ ?_ ?_
      · refine Or.inr (Or.inr ⟨_, _, ?_, placed⟩)
        rw [Allocator.allocate, answer]
        dsimp only
        rw [Memory.copy, if_pos apart, left]
        dsimp only [Option.bind_eq_bind, Option.bind_some]
        rw [Memory.copy, if_pos apart', kept]
        simp only [Option.bind_some, Option.pure_def, List.length_append, Store.octets, front, back]
      · rw [List.length_append, Store.octets, front, back]
        exact enough
      · intro address outside
        rw [Memory.fill, Memory.write_outside (by rw [List.length_replicate]; omega), Memory.write_outside (by rw [back]; omega),
          Memory.write_outside (by rw [front]; omega)]
      · rw [List.length_append, Store.octets, front, back]
        exact all

/-- What a program must keep to: it reads what it may, and lengths stay in bounds. -/
def Call.Allowed (callers : List Region) (s : State) : Call → Prop
  | .createFromBuffer buffer length preallocate =>
    Readable callers s ⟨buffer, length⟩ ∧ length < 2 ^ 61 ∧ preallocate < 2 ^ 61
  | .createFromString source preallocate => source < s.strings.length ∧ preallocate < 2 ^ 61
  | .initWithBuffer buffer length => Readable callers s ⟨buffer, length⟩ ∧ length < 2 ^ 61
  | .createWithBuffer buffer length => Readable callers s ⟨buffer, length⟩ ∧ length < 2 ^ 61
  | .createWithString source => source < s.strings.length
  | .appendWithBuffer string buffer length =>
    Readable callers s ⟨buffer, length⟩ ∧ ∃ entry, s.strings[string]? = some entry ∧ entry.string.length + length < 2 ^ 61
  | .appendWithString destination source =>
    ∃ entry other, s.strings[destination]? = some entry ∧ s.strings[source]? = some other ∧
      entry.string.length + other.string.length < 2 ^ 61

/-- The string that a call appends to. -/
def Call.target : Call → Option Nat
  | .appendWithBuffer string _ _ => some string
  | .appendWithString destination _ => some destination
  | _ => none

/-- The octets of a string may be read. -/
theorem Readable.filled (there : entry ∈ s.strings) : Readable callers s entry.string.filled :=
  Or.inr ⟨entry, there, .refl _⟩

/-- A string that was placed is a further one. -/
theorem Sound.place (h : Sound callers memory s) {string : SlString} {octets : List UInt8}
    (placed : Placed s.toStore store string octets) (small : octets.length < 2 ^ 61) :
    Sound callers memory { store with strings := s.strings ++ [⟨string, octets⟩] } := by
  refine h.push placed.grown ⟨placed.fits, placed.length ▸ small⟩ ⟨_, placed.mine, .refl _⟩ placed.octets ?_ ?_
  · exact fun region used => SlString.spares_of_disjoint (placed.disjoint region used)
  · intro entry there
    obtain ⟨region, used, within⟩ := h.inside entry there
    exact SlString.spares_of_disjoint ((placed.disjoint region used).symm.mono within (.refl _))

/-- Nothing but a region was added. -/
theorem Sound.extend (h : Sound callers memory s) (grown : s.toStore.Extends store) :
    Sound callers memory { store with strings := s.strings } := by
  have kept : ∀ entry ∈ s.strings, store.octets entry.string = s.octets entry.string := by
    intro entry there
    obtain ⟨region, used, within⟩ := h.inside entry there
    exact grown.memory entry.string.filled ⟨region, used, (SlString.filled_within (h.lengths entry there).1).trans within⟩
  refine ⟨h.lengths, fun entry there => ?_, fun entry there => (kept entry there).trans (h.contents entry there), h.apart,
    h.supplied, fun caller known => grown.regions caller (h.known caller known), fun caller known => ?_⟩
  · obtain ⟨region, used, within⟩ := h.inside entry there
    exact ⟨region, grown.regions region used, within⟩
  · exact (grown.memory caller ⟨caller, h.known caller known, .refl _⟩).trans (h.untouched caller known)

/-- A view of what a program may read. -/
theorem Sound.view (h : Sound callers memory s) (grown : s.toStore.Extends store) {buffer length : Nat}
    (readable : Readable callers s ⟨buffer, length⟩) (small : length < 2 ^ 61) :
    Sound callers memory
      { store with strings := s.strings ++ [⟨⟨length, length, buffer⟩, s.memory.read buffer length⟩] } := by
  obtain ⟨region, used, within⟩ := readable.inside h
  refine h.push grown ⟨Nat.le_refl _, small⟩ ⟨region, grown.regions region used, within⟩ ?_ ?_ ?_
  · exact grown.memory ⟨buffer, length⟩ ⟨region, used, within⟩
  · exact fun _ _ more => absurd more (Nat.lt_irrefl _)
  · intro entry there
    obtain ⟨n, here⟩ := List.mem_iff_getElem?.mp there
    exact readable.spared h here

/-- **Creating a copy.** -/
theorem Sound.copy (h : Sound callers memory s) (fresh : arena.Fresh) {buffer length preallocate : Nat}
    (readable : Readable callers s ⟨buffer, length⟩) (small : length < 2 ^ 61) (small' : preallocate < 2 ^ 61) :
    ∃ result, createFromBuffer arena s.toStore buffer length preallocate = some result ∧
      Sound callers memory (s.create (s.memory.read buffer length) result).2 := by
  rcases createFromBuffer_cases fresh (readable.inside h) small small' with ⟨store, result, grown⟩ | ⟨string, store, result, placed⟩
  · exact ⟨_, result, h.extend grown⟩
  · exact ⟨_, result, h.place placed (by rwa [Memory.length_read])⟩

/-- **Creating a view.** -/
theorem Sound.createWithBuffer (h : Sound callers memory s) (arena : Allocator) {buffer length : Nat}
    (readable : Readable callers s ⟨buffer, length⟩) (small : length < 2 ^ 61) :
    Sound callers memory (s.create (s.memory.read buffer length) (createWithBuffer arena s.toStore buffer length)).2 := by
  have grown := arena.allocate_extends s.toStore sizeofString
  unfold Sharing.createWithBuffer
  split
  · rename_i store refused
    rw [refused] at grown
    exact h.extend grown
  · rename_i pointer store made
    rw [made] at grown
    exact h.view grown readable small

/-- **Appending.** -/
theorem Sound.append (h : Sound callers memory s) (fresh : arena.Fresh) (here : s.strings[n]? = some entry) {buffer length : Nat}
    (readable : Readable callers s ⟨buffer, length⟩) (small : entry.string.length + length < 2 ^ 61) :
    ∃ result, appendWithBuffer arena s.toStore entry.string buffer length = some result ∧
      Sound callers memory (s.append n entry (s.memory.read buffer length) result).2 ∧
      (result.1 = false → (s.append n entry (s.memory.read buffer length) result).2.strings = s.strings) := by
  have there := List.mem_of_getElem? here
  obtain ⟨fits, -⟩ := h.lengths entry there
  have spared := readable.spared h here
  have contents := h.contents entry there
  rcases appendWithBuffer_cases fresh ((Readable.filled there).inside h) (readable.inside h) spared small with
    result | ⟨room, result⟩ | ⟨string, store, result, placed⟩
  · have same : s.strings.set n entry = s.strings := by
      obtain ⟨less, here⟩ := List.getElem?_eq_some_iff.mp here
      rw [← here, List.set_getElem_self]
    refine ⟨_, result, ?_, fun _ => same⟩
    change Sound callers memory { s with strings := s.strings.set n entry }
    rw [same]
    exact h
  · refine ⟨_, result, ?_, fun none => by cases none⟩
    have whole : ∀ {part : Region}, entry.string.Spares part →
        (s.memory.write (entry.string.buffer + entry.string.length) (s.memory.read buffer length)).read part.start part.size =
          s.memory.read part.start part.size := by
      intro part spares
      by_cases empty : length = 0
      · subst empty
        exact Memory.read_congr fun address _ _ => Memory.write_outside (by simp; omega)
      · apply Memory.read_write_disjoint
        rw [Memory.length_read]
        refine (spares (by omega)).symm.mono (.refl _) ?_
        simp only [Region.Within, SlString.room]
        omega
    refine h.set here (fun _ => id) ⟨room, small⟩ (h.inside entry there) ?_ ?_ ?_ ?_ ?_ ?_
    · have front := whole entry.string.spares_filled
      have back := Memory.read_write_self s.memory (entry.string.buffer + entry.string.length) (s.memory.read buffer length)
      rw [Memory.length_read] at back
      rw [Store.octets, Memory.read_append, back, ← contents]
      exact congrArg (· ++ s.memory.read buffer length) front
    · intro m other different found
      have filled := SlString.filled_within (h.lengths other (List.mem_of_getElem? found)).1
      exact whole ((h.apart n m entry other (Ne.symm different) here found).mono filled)
    · intro m other different found more
      dsimp only at more
      refine (h.apart n m entry other (Ne.symm different) here found (by omega)).mono ?_ (.refl _)
      simp only [Region.Within, SlString.room]
      omega
    · exact fun m other different found => h.apart m n other entry different found here
    · intro caller known more
      dsimp only at more
      refine (h.supplied entry there caller known (by omega)).mono ?_ (.refl _)
      simp only [Region.Within, SlString.room]
      omega
    · exact fun caller known => whole (h.supplied entry there caller known)
  · refine ⟨_, result, ?_, fun none => by cases none⟩
    have inside : ∀ {m : Nat} {other : Entry}, s.strings[m]? = some other → ∃ region ∈ s.regions, other.string.whole.Within region :=
      fun found => h.inside _ (List.mem_of_getElem? found)
    refine h.set here placed.grown.regions ⟨placed.fits, ?_⟩ ⟨_, placed.mine, .refl _⟩ ?_ ?_ ?_ ?_ ?_ ?_
    · rw [placed.length, List.length_append, Store.octets, Memory.length_read, Memory.length_read]
      exact small
    · rw [placed.octets, contents]
    · intro m other _ found
      obtain ⟨region, used, within⟩ := inside found
      have filled := SlString.filled_within (h.lengths other (List.mem_of_getElem? found)).1
      exact placed.grown.memory other.string.filled ⟨region, used, filled.trans within⟩
    · intro m other _ found
      obtain ⟨region, used, within⟩ := inside found
      exact (SlString.spares_of_disjoint (placed.disjoint region used)).mono within
    · intro m other _ found
      obtain ⟨region, used, within⟩ := inside found
      exact SlString.spares_of_disjoint ((placed.disjoint region used).symm.mono within (.refl _))
    · exact fun caller known => SlString.spares_of_disjoint (placed.disjoint caller (h.known caller known))
    · exact fun caller known => placed.grown.memory caller ⟨caller, h.known caller known, .refl _⟩

/-! ## Runs -/

theorem create_kept (history : List UInt8) (result : Option SlString × Store) (here : s.strings[n]? = some entry) :
    (s.create history result).2.strings[n]? = some entry := by
  have fits := (List.getElem?_eq_some_iff.mp here).1
  obtain ⟨_ | string, store⟩ := result
  · exact here
  · exact (List.getElem?_append_left fits).trans here

theorem append_kept (octets : List UInt8) (result : Bool × SlString × Store) {m : Nat} {other : Entry} (different : m ≠ n)
    (here : s.strings[m]? = some other) : (s.append n entry octets result).2.strings[m]? = some other := by
  obtain ⟨_ | _, string, store⟩ := result
  · exact (List.getElem?_set_ne (Ne.symm different)).trans here
  · exact (List.getElem?_set_ne (Ne.symm different)).trans here

theorem append_ok (octets : List UInt8) (result : Bool × SlString × Store) : (s.append n entry octets result).1 = result.1 := by
  obtain ⟨_ | _, string, store⟩ := result
  · rfl
  · rfl

/-- **One call.** It comes to its end and keeps the invariant, and a string that it does not append
to stays what it is, as does one that it fails to append to. -/
theorem Sound.run (h : Sound callers memory s) (fresh : arena.Fresh) (call : Call) (allowed : call.Allowed callers s) :
    ∃ ok s', call.run arena s = some (ok, s') ∧ Sound callers memory s' ∧
      ∀ n entry, s.strings[n]? = some entry → call.target ≠ some n ∨ ok = false → s'.strings[n]? = some entry := by
  have appended : ∀ {n : Nat} {entry : Entry}, s.strings[n]? = some entry → ∀ {buffer length : Nat},
      Readable callers s ⟨buffer, length⟩ → entry.string.length + length < 2 ^ 61 →
      ∃ result, appendWithBuffer arena s.toStore entry.string buffer length = some result ∧
        Sound callers memory (s.append n entry (s.memory.read buffer length) result).2 ∧
        ∀ m other, s.strings[m]? = some other →
          some n ≠ some m ∨ (s.append n entry (s.memory.read buffer length) result).1 = false →
          (s.append n entry (s.memory.read buffer length) result).2.strings[m]? = some other := by
    intro n entry here buffer length readable small
    obtain ⟨result, returns, sound, failed⟩ := h.append fresh here readable small
    refine ⟨result, returns, sound, fun m other found spared => ?_⟩
    rcases spared with different | refused
    · exact append_kept _ result (fun same => different (congrArg some same.symm)) found
    · rw [append_ok] at refused
      rw [failed refused]
      exact found
  suffices ends : ∃ result, call.run arena s = some result ∧ Sound callers memory result.2 ∧
      ∀ n entry, s.strings[n]? = some entry → call.target ≠ some n ∨ result.1 = false → result.2.strings[n]? = some entry by
    obtain ⟨⟨ok, s'⟩, ends⟩ := ends
    exact ⟨ok, s', ends⟩
  cases call with
  | createFromBuffer buffer length preallocate =>
    obtain ⟨readable, small, small'⟩ := allowed
    obtain ⟨result, returns, sound⟩ := h.copy fresh readable small small'
    refine ⟨_, ?_, sound, fun n entry here _ => create_kept _ result here⟩
    rw [Call.run, returns]
    rfl
  | createFromString source preallocate =>
    obtain ⟨fits, small⟩ := allowed
    have here := List.getElem?_eq_getElem fits
    have there := List.mem_of_getElem? here
    obtain ⟨result, returns, sound⟩ := h.copy fresh (Readable.filled there) (h.lengths _ there).2 small
    refine ⟨_, ?_, sound, fun n entry here _ => create_kept _ result here⟩
    rw [Call.run, here]
    dsimp only [Option.bind_eq_bind, Option.bind_some]
    rw [show Sharing.createFromString arena s.toStore s.strings[source].string preallocate = some result from returns]
    rfl
  | initWithBuffer buffer length =>
    obtain ⟨readable, small⟩ := allowed
    exact ⟨_, rfl, h.view (.refl _) readable small, fun n entry here _ => create_kept _ _ here⟩
  | createWithBuffer buffer length =>
    obtain ⟨readable, small⟩ := allowed
    exact ⟨_, rfl, h.createWithBuffer arena readable small, fun n entry here _ => create_kept _ _ here⟩
  | createWithString source =>
    have here := List.getElem?_eq_getElem (allowed : source < s.strings.length)
    have there := List.mem_of_getElem? here
    have sound := h.createWithBuffer arena (Readable.filled there) (h.lengths _ there).2
    refine ⟨_, ?_, sound, fun n entry here _ => create_kept _ _ here⟩
    rw [Call.run, here]
    rfl
  | appendWithBuffer string buffer length =>
    obtain ⟨readable, entry, here, small⟩ := allowed
    obtain ⟨result, returns, sound, kept⟩ := appended here readable small
    refine ⟨_, ?_, sound, kept⟩
    rw [Call.run, here]
    dsimp only [Option.bind_eq_bind, Option.bind_some]
    rw [returns]
    rfl
  | appendWithString destination source =>
    obtain ⟨entry, other, here, there, small⟩ := allowed
    obtain ⟨result, returns, sound, kept⟩ := appended here (Readable.filled (List.mem_of_getElem? there)) small
    refine ⟨_, ?_, sound, kept⟩
    rw [Call.run, here, there]
    dsimp only [Option.bind_eq_bind, Option.bind_some]
    rw [show Sharing.appendWithString arena s.toStore entry.string other.string = some result from returns]
    rfl

/-- The string by value. -/
def Entry.value (entry : Entry) : Text.SlString := ⟨entry.string.allocated, entry.history⟩

/-- The capacity behind an append. -/
theorem allocated_append {string string' : SlString} {buffer length : Nat} (small : string.length + length < 2 ^ 61)
    (h : appendWithBuffer arena store string buffer length = some (true, string', store')) :
    string'.allocated = if string.length + length ≤ string.allocated then string.allocated
      else Text.SlString.grownSize (string.length + length) := by
  unfold appendWithBuffer at h
  rw [wrap64_of_lt (by omega : string.length + length < 2 ^ 64)] at h
  split at h
  · rename_i room
    obtain ⟨memory, -, result⟩ := Option.bind_eq_some_iff.mp h
    cases result
    rw [if_pos room]
  · rename_i full
    rw [if_neg full, Text.SlString.grownSize]
    dsimp only at h
    split at h
    · cases h
    · obtain ⟨memory, -, h⟩ := Option.bind_eq_some_iff.mp h
      obtain ⟨memory', -, result⟩ := Option.bind_eq_some_iff.mp h
      cases result
      rfl

/-- **A string in memory is a string by value.** An append that succeeds does to the
capacity and to the octets what it does to those of `Text.SlString`. -/
theorem Sound.append_value (h : Sound callers memory s) (there : entry ∈ s.strings) {buffer length : Nat}
    (small : entry.string.length + length < 2 ^ 61) {string : SlString}
    (returns : appendWithBuffer arena s.toStore entry.string buffer length = some (true, string, store)) :
    (⟨string, entry.history ++ s.memory.read buffer length⟩ : Entry).value = entry.value.appended (s.memory.read buffer length) := by
  have length_eq : entry.history.length = entry.string.length := by
    rw [← h.contents entry there, Store.octets, Memory.length_read]
  simp only [Entry.value, Text.SlString.appended, Text.SlString.length, length_eq, Memory.length_read, allocated_append small returns]
  split <;> rfl

/-- A program begins with no strings, and with what the caller has in memory. -/
def Start (callers : List Region) (memory : Memory) (s : State) : Prop := s = { memory, regions := callers }

/-- One call of a program, with an arena that answers as it likes. -/
def Step (callers : List Region) (s s' : State) : Prop :=
  ∃ (arena : Allocator) (call : Call) (ok : Bool), arena.Fresh ∧ call.Allowed callers s ∧ call.run arena s = some (ok, s')

theorem sound_of_reached (h : Reached (Start callers memory) (Step callers) s) : Sound callers memory s := by
  refine h.invariant ?_ ?_
  · intro s first
    subst first
    have absent : ∀ entry : Entry, entry ∉ ([] : List Entry) := fun _ => List.not_mem_nil
    refine ⟨fun entry there => absurd there (absent entry), fun entry there => absurd there (absent entry),
      fun entry there => absurd there (absent entry), fun n m entry other _ here => ?_,
      fun entry there => absurd there (absent entry), fun _ => id, fun _ _ => rfl⟩
    cases here
  · intro s s' sound step
    obtain ⟨arena, call, ok, fresh, allowed, result⟩ := step
    obtain ⟨ok', next, returns, sound', -⟩ := sound.run fresh call allowed
    cases returns.symm.trans result
    exact sound'

/-- **Strings keep their own contents.** In every state that a program can
reach, the capacity of each string is in its buffer and covers its length, and
its octets are what it was created with and what was appended to it since; the
caller's buffers are as they were. A further call comes to its end, and neither
the strings it does not append to nor one that it fails to append to change. -/
theorem strings_keep_contents (h : Reached (Start callers memory) (Step callers) s) :
    (∀ entry ∈ s.strings, entry.string.length ≤ entry.string.allocated ∧
      (∃ region ∈ s.regions, entry.string.whole.Within region) ∧ s.octets entry.string = entry.history) ∧
    (∀ caller ∈ callers, s.memory.read caller.start caller.size = memory.read caller.start caller.size) ∧
    ∀ (arena : Allocator) (call : Call), arena.Fresh → call.Allowed callers s →
      ∃ ok s', call.run arena s = some (ok, s') ∧
        ∀ n entry, s.strings[n]? = some entry → call.target ≠ some n ∨ ok = false →
          s'.strings[n]? = some entry ∧ s'.octets entry.string = s.octets entry.string := by
  have sound := sound_of_reached h
  refine ⟨fun entry there => ⟨(sound.lengths entry there).1, sound.inside entry there, sound.contents entry there⟩,
    sound.untouched, fun arena call fresh allowed => ?_⟩
  obtain ⟨ok, s', returns, sound', kept⟩ := sound.run fresh call allowed
  refine ⟨ok, s', returns, fun n entry here spared => ?_⟩
  have here' := kept n entry here spared
  have now := sound'.contents entry (List.mem_of_getElem? here')
  exact ⟨here', now.trans (sound.contents entry (List.mem_of_getElem? here)).symm⟩

/-- An arena that answers with the first address above everything in use. -/
def above : Allocator := fun regions _ => some (regions.foldr (fun region top => max (region.start + region.size) top) 0)

theorem fresh_above : above.Fresh := by
  intro regions size pointer answer region there
  cases answer
  apply Or.inr
  dsimp only
  induction regions with
  | nil => cases there
  | cons first rest ih =>
    rw [List.foldr_cons]
    rcases List.mem_cons.mp there with rfl | there
    · exact Nat.le_max_left ..
    · exact Nat.le_trans (ih there) (Nat.le_max_right ..)

/-- A copy of a caller's buffer of three octets. -/
def copied : State where
  memory := (Memory.write (fun address => address.toUInt8) 27 [0, 1, 2]).fill 30 0 1
  regions := [⟨27, 4⟩, ⟨3, 24⟩, ⟨0, 3⟩]
  strings := [⟨⟨4, 3, 27⟩, [0, 1, 2]⟩]

theorem reached_copied : Reached (Start [⟨0, 3⟩] fun address => address.toUInt8) (Step [⟨0, 3⟩]) copied := by
  have start : Reached (Start [⟨0, 3⟩] fun address => address.toUInt8) (Step [⟨0, 3⟩])
      { memory := fun address => address.toUInt8, regions := [⟨0, 3⟩] } := .first rfl
  refine .step start ⟨above, .createFromBuffer 0 3 4, true, fresh_above, ⟨Or.inl ⟨_, List.mem_cons_self, .refl _⟩, ?_, ?_⟩, ?_⟩
  · decide
  · decide
  · rfl

/-- What a call leaves. -/
def State.behind (s : State) (call : Call) : State := ((call.run above s).map Prod.snd).getD s

theorem Step.behind {call : Call} (allowed : call.Allowed callers s) (returns : (call.run above s).isSome = true) :
    Step callers s (s.behind call) := by
  cases run : call.run above s with
  | none =>
    rw [run] at returns
    cases returns
  | some r => exact ⟨above, call, r.1, fresh_above, allowed, by rw [State.behind, run]; rfl⟩

/-- A view of the copy. The copy and the view are appended to themselves, and the view to the copy. -/
def shared : State :=
  (((copied.behind (.createWithString 0)).behind (.appendWithString 0 0)).behind (.appendWithString 1 1)).behind (.appendWithString 0 1)

theorem reached_shared : Reached (Start [⟨0, 3⟩] fun address => address.toUInt8) (Step [⟨0, 3⟩]) shared := by
  refine .step (.step (.step (.step reached_copied (.behind ?_ ?_)) (.behind ?_ ?_)) (.behind ?_ ?_)) (.behind ?_ ?_)
  · exact (by decide : 0 < 1)
  · rfl
  · exact ⟨_, _, rfl, rfl, by decide⟩
  · rfl
  · exact ⟨_, _, rfl, rfl, by decide⟩
  · rfl
  · exact ⟨_, _, rfl, rfl, by decide⟩
  · rfl

theorem strings_keep_contents_shared :
    (∀ entry ∈ shared.strings, entry.string.length ≤ entry.string.allocated ∧
      (∃ region ∈ shared.regions, entry.string.whole.Within region) ∧ shared.octets entry.string = entry.history) ∧
    (∀ caller ∈ [(⟨0, 3⟩ : Region)], shared.memory.read caller.start caller.size =
      Memory.read (fun address => address.toUInt8) caller.start caller.size) ∧
    ∀ (arena : Allocator) (call : Call), arena.Fresh → call.Allowed [⟨0, 3⟩] shared →
      ∃ ok s', call.run arena shared = some (ok, s') ∧
        ∀ n entry, shared.strings[n]? = some entry → call.target ≠ some n ∨ ok = false →
          s'.strings[n]? = some entry ∧ s'.octets entry.string = shared.octets entry.string :=
  strings_keep_contents reached_shared

example : shared.strings.map Entry.history = [[0, 1, 2, 0, 1, 2, 0, 1, 2, 0, 1, 2], [0, 1, 2, 0, 1, 2]] := by decide +kernel

end Cpptrw.Text.Sharing
