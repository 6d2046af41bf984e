import Cpptrw.Arena.Blocks
import Cpptrw.Lib.TwoRun

/-!
# A program in the memory of its arena

Here the structures of the server lie in memory, octet by octet, in regions that
come from the arena, and memory holds what was there before: neither `malloc`
nor `sl_arena_rewind` clears anything. `written` is a history that no operation
looks at: the addresses written since the arena was rewound. Two worlds are
alike if they differ, in memory, only where nothing was written, and in two
counters of the arena that no code reads.

A pointer is the address where a region starts, and `0` is `NULL`. An access
through it has to stay in a region that starts there.
-/

namespace Cpptrw.Leftover

open Lib Arena

/-- What a run is given: what `malloc` and `writev` answer, by the number of the
call, where the locals of `sl_main_request_execute` are, and how many nodes of a
list are walked at most. -/
structure Setting where
  malloc : Nat → Heap → Nat → Option Nat
  writev : Nat → List (List UInt8) → Option Nat
  frame : Nat
  fuel : Nat

/-- `SL_MAIN_ARENA_PREALLOCATE`. -/
def arenaPreallocate : Nat := 102400

/-- What a region is asked for: a parameter record, a string, a node, an array of pointers to nodes, a name,
a value or data with a terminator behind it, or the buffer of a string. -/
inductive Purpose
  | param
  | string
  | bucket
  | buckets
  | data
  | characters
  deriving DecidableEq

/-- The purposes of the regions are recorded as the calls are made; nothing looks at them. -/
structure World where
  memory : Memory
  written : Nat → Bool := fun _ => false
  arena : SlArena
  heap : Heap
  regions : List Region := []
  purposes : List Purpose := []
  calls : Nat := 0
  sent : List (List (List UInt8)) := []

abbrev Code (α : Type) : Type := Machine World α

/-- Two strings that are locals, and the two literals that they point to. -/
def locals (frame : Nat) : List Region := [⟨frame + 8, 24⟩, ⟨frame + 32, 24⟩, ⟨frame + 56, 13⟩, ⟨frame + 72, 11⟩]

/-- Where the locals are, and a word below them. -/
def Setting.stack (S : Setting) : Region := ⟨S.frame, 88⟩

/-- The regions of the program. -/
def World.known (S : Setting) (w : World) : List Region := w.regions ++ locals S.frame

/-- An access of `size` octets behind a pointer. -/
def InBounds (S : Setting) (w : World) (pointer offset size : Nat) : Prop :=
  ∃ region ∈ w.known S, region.start = pointer ∧ offset + size ≤ region.size

instance (S : Setting) (w : World) (pointer offset size : Nat) : Decidable (InBounds S w pointer offset size) :=
  inferInstanceAs (Decidable (∃ region ∈ w.known S, _))

/-- Octets are written. -/
def World.put (w : World) (start : Nat) (octets : List UInt8) : World :=
  { w with
    memory := w.memory.write start octets
    written := fun address => w.written address || decide (start ≤ address ∧ address < start + octets.length) }

/-! ## Operations -/

def load (S : Setting) (pointer offset size : Nat) : Code (List UInt8) := fun w =>
  if size = 0 then (.ok [], w)
  else if pointer = 0 then (.error .nullPointer, w)
  else if InBounds S w pointer offset size then (.ok (w.memory.read (pointer + offset) size), w)
  else (.error .outOfBounds, w)

def store (S : Setting) (pointer offset : Nat) (octets : List UInt8) : Code Unit := fun w =>
  if octets = [] then (.ok (), w)
  else if pointer = 0 then (.error .nullPointer, w)
  else if InBounds S w pointer offset octets.length then (.ok (), w.put (pointer + offset) octets)
  else (.error .outOfBounds, w)

/-- A field of type `size_t`, or a pointer. -/
def load64 (S : Setting) (pointer offset : Nat) : Code Nat := load S pointer offset 8 >>= fun octets => pure (ofOctets octets)

def store64 (S : Setting) (pointer offset value : Nat) : Code Unit := store S pointer offset (toOctets 8 value)

/-- A field of type `uint32_t`. -/
def load32 (S : Setting) (pointer offset : Nat) : Code Nat := load S pointer offset 4 >>= fun octets => pure (ofOctets octets)

def store32 (S : Setting) (pointer offset value : Nat) : Code Unit := store S pointer offset (toOctets 4 value)

/-- All fields of a structure, or all elements of an array. -/
def storeWords (S : Setting) (pointer : Nat) (values : List Nat) : Code Unit := store S pointer 0 (words values)

/-- `sl_arena_allocate`. -/
def allocate (S : Setting) (purpose : Purpose) (size : Nat) : Code Nat := fun w =>
  match Arena.allocate (S.malloc w.calls w.heap) w.arena w.heap size with
  | none => (.error .diverged, w)
  | some (none, arena, heap) => (.ok 0, { w with arena, heap, calls := w.calls + 1 })
  | some (some pointer, arena, heap) =>
    (.ok pointer,
      { w with arena, heap, calls := w.calls + 1, regions := ⟨pointer, size⟩ :: w.regions, purposes := purpose :: w.purposes })

/-- `writev`. -/
def writev (S : Setting) (buffers : List (List UInt8)) : Code (Option Nat) := fun w =>
  (.ok (S.writev w.sent.length buffers), { w with sent := w.sent ++ [buffers] })

/-! ## Fields -/

/-- A field of eight octets. -/
def World.word (w : World) (address : Nat) : Nat := ofOctets (w.memory.read address 8)

/-- A field of four octets. -/
def World.half (w : World) (address : Nat) : Nat := ofOctets (w.memory.read address 4)

/-- The octets from an address on were written. -/
def Filled (w : World) (start size : Nat) : Prop := ∀ address, start ≤ address → address < start + size → w.written address = true

variable {S : Setting} {w v : World} {start address : Nat} {octets : List UInt8}

theorem World.half_lt (w : World) (address : Nat) : w.half address < 2 ^ 32 := by
  have := ofOctets_lt (w.memory.read address 4)
  rwa [Memory.length_read] at this

theorem World.word_put_self (w : World) (start n : Nat) : (w.put start (toOctets 8 n)).word start = n % 2 ^ 64 := by
  have back := Memory.read_write_self w.memory start (toOctets 8 n)
  rw [length_toOctets] at back
  rw [World.word, World.put, back]
  exact ofOctets_toOctets 8 n

theorem World.half_put_self (w : World) (start n : Nat) : (w.put start (toOctets 4 n)).half start = n % 2 ^ 32 := by
  have back := Memory.read_write_self w.memory start (toOctets 4 n)
  rw [length_toOctets] at back
  rw [World.half, World.put, back]
  exact ofOctets_toOctets 4 n

theorem World.word_put_words (w : World) (start : Nat) {values : List Nat} {i : Nat} (h : i < values.length) :
    (w.put start (words values)).word (start + 8 * i) = values[i] % 2 ^ 64 := by
  rw [World.word, World.put, Memory.read_write_inside (by rw [length_words]; omega), drop_words values i h]
  exact ofOctets_toOctets 8 _

/-- A field of a structure that is zero. -/
theorem World.half_put_zero (w : World) (start : Nat) {offset : Nat} (fits : offset + 4 ≤ 32) :
    (w.put start (words [0, 0, 0, 0])).half (start + offset) = 0 := by
  have zeros : words [0, 0, 0, 0] = List.replicate 32 0 := by decide
  rw [zeros, World.half, World.put, Memory.read_write_inside (by rw [List.length_replicate]; exact fits), List.drop_replicate,
    List.take_replicate, Nat.min_eq_left (by omega)]
  rfl

theorem World.word_put_other (apart : address + 8 ≤ start ∨ start + octets.length ≤ address) :
    (w.put start octets).word address = w.word address :=
  congrArg ofOctets (@Memory.read_write_disjoint _ _ _ ⟨address, 8⟩ apart)

theorem World.half_put_other (apart : address + 4 ≤ start ∨ start + octets.length ≤ address) :
    (w.put start octets).half address = w.half address :=
  congrArg ofOctets (@Memory.read_write_disjoint _ _ _ ⟨address, 4⟩ apart)

theorem World.word_same {n : Nat} (same : ∀ address, start ≤ address → address < start + n → v.memory address = w.memory address)
    (offset : Nat) (fits : offset + 8 ≤ n) : v.word (start + offset) = w.word (start + offset) :=
  congrArg ofOctets (Memory.read_congr fun address low high => same address (by omega) (by omega))

theorem World.half_same {n : Nat} (same : ∀ address, start ≤ address → address < start + n → v.memory address = w.memory address)
    (offset : Nat) (fits : offset + 4 ≤ n) : v.half (start + offset) = w.half (start + offset) :=
  congrArg ofOctets (Memory.read_congr fun address low high => same address (by omega) (by omega))

theorem World.written_put (h : w.written address = true) : (w.put start octets).written address = true := by
  simp only [World.put, h, Bool.true_or]

theorem filled_put (w : World) (start : Nat) (octets : List UInt8) : Filled (w.put start octets) start octets.length := by
  intro address low high
  simp [World.put, low, high]

theorem Filled.put {start' size : Nat} (h : Filled w start' size) : Filled (w.put start octets) start' size :=
  fun address low high => World.written_put (h address low high)

theorem Filled.front {start size size' : Nat} (h : Filled w start size) (less : size' ≤ size) : Filled w start size' :=
  fun address low high => h address low (by omega)

/-- A part of what was written. -/
theorem Filled.part {start size offset size' : Nat} (h : Filled w start size) (less : offset + size' ≤ size) :
    Filled w (start + offset) size' :=
  fun address low high => h address (by omega) (by omega)

/-- Two parts, one behind the other. -/
theorem Filled.append {start size size' : Nat} (h : Filled w start size) (h' : Filled w (start + size) size') :
    Filled w start (size + size') := by
  intro address low high
  by_cases first : address < start + size
  · exact h address low first
  · exact h' address (by omega) (by omega)

/-! ## Worlds alike -/

/-- Two arenas with one chain of blocks. -/
structure Alike (arena arena' : SlArena) : Prop where
  first : arena.first = arena'.first
  last : arena.last = arena'.last
  preallocate : arena.preallocate = arena'.preallocate

structure Same (w v : World) : Prop where
  arena : Alike w.arena v.arena
  heap : w.heap = v.heap
  regions : w.regions = v.regions
  written : w.written = v.written
  calls : w.calls = v.calls
  sent : w.sent = v.sent
  memory : ∀ address, w.written address = true → w.memory address = v.memory address

theorem Same.inBounds (h : Same w v) {pointer offset size : Nat} : InBounds S v pointer offset size ↔ InBounds S w pointer offset size := by
  rw [InBounds, InBounds, World.known, World.known, h.regions]

theorem Same.read (h : Same w v) {start size : Nat} (filled : Filled w start size) : w.memory.read start size = v.memory.read start size :=
  Memory.read_congr fun address low high => h.memory address (filled address low high)

theorem Same.put (h : Same w v) (start : Nat) (octets : List UInt8) : Same (w.put start octets) (v.put start octets) := by
  refine ⟨h.arena, h.heap, h.regions, ?_, h.calls, h.sent, fun address there => ?_⟩
  · simp only [World.put, h.written]
  · simp only [World.put, Bool.or_eq_true, decide_eq_true_eq] at there
    simp only [World.put, Memory.write]
    split
    · rfl
    · rename_i outside
      exact h.memory address (there.resolve_right outside)

/-- The results of two calls of `sl_arena_allocate`. -/
def AllocatedAlike (result result' : Option (Option Nat × SlArena × Heap)) : Prop :=
  Option.Rel (fun r r' => r.1 = r'.1 ∧ Alike r.2.1 r'.2.1 ∧ r.2.2 = r'.2.2) result result'

theorem Alike.blockSize {arena arena' : SlArena} (h : Alike arena arena') (size : Nat) : blockSize arena size = blockSize arena' size := by
  rw [Arena.blockSize, Arena.blockSize, h.preallocate]

/-- The arena goes by its chain. -/
theorem Alike.allocate {arena arena' : SlArena} (h : Alike arena arena') (malloc : Nat → Option Nat) (heap : Heap) (size : Nat) :
    AllocatedAlike (Arena.allocate malloc arena heap size) (Arena.allocate malloc arena' heap size) := by
  obtain ⟨first, last, preallocate, _, _, _, _⟩ := arena
  obtain ⟨first', last', preallocate', _, _, _, _⟩ := arena'
  obtain ⟨rfl, rfl, rfl⟩ := h
  unfold Arena.allocate
  dsimp only [Option.bind_eq_bind, Arena.blockSize]
  cases firstFit size heap.length heap first with
  | none => exact Option.Rel.none
  | some found =>
    obtain ⟨_ | buffer, heap⟩ := found
    · simp only [Option.bind_some, ne_eq, not_true_eq_false, if_false]
      generalize createBlock malloc heap _ = created
      obtain ⟨_ | pointer, heap'⟩ := created
      · exact Option.Rel.some ⟨rfl, ⟨rfl, rfl, rfl⟩, rfl⟩
      · dsimp only
        cases heap'.link last pointer with
        | none => exact Option.Rel.none
        | some heap' =>
          simp only [Option.bind_some]
          cases heap'.load pointer with
          | none => exact Option.Rel.none
          | some block =>
            simp only [Option.bind_some]
            cases allocateFromBlock heap' pointer size with
            | none => exact Option.Rel.none
            | some found =>
              obtain ⟨_ | buffer, heap''⟩ := found
              · cases first <;> exact Option.Rel.some ⟨rfl, ⟨rfl, rfl, rfl⟩, rfl⟩
              · cases first <;> exact Option.Rel.some ⟨rfl, ⟨rfl, rfl, rfl⟩, rfl⟩
    · exact Option.Rel.some ⟨rfl, ⟨rfl, rfl, rfl⟩, rfl⟩

/-! ## Rules -/

/-- What is loaded was written before. -/
theorem runs_load {pointer offset size : Nat} {post : List UInt8 → World → Prop} (filled : Filled w (pointer + offset) size)
    (after : post (w.memory.read (pointer + offset) size) w) : Machine.Runs Same (load S pointer offset size) w post := by
  intro v like
  unfold load
  split
  · rename_i empty
    subst empty
    exact ⟨rfl, like, fun x same => by cases same; exact after⟩
  · split
    · exact ⟨rfl, like, fun x same => by cases same⟩
    · by_cases bounds : InBounds S w pointer offset size
      · rw [if_pos bounds, if_pos (like.inBounds.mpr bounds), like.read filled]
        apply And.intro rfl
        apply And.intro like
        intro x same
        cases same
        rwa [← like.read filled]
      · rw [if_neg bounds, if_neg fun there => bounds (like.inBounds.mp there)]
        exact ⟨rfl, like, fun x same => by cases same⟩

theorem runs_load64 {pointer offset : Nat} {post : Nat → World → Prop} (filled : Filled w (pointer + offset) 8)
    (after : post (w.word (pointer + offset)) w) : Machine.Runs Same (load64 S pointer offset) w post := by
  apply (@runs_load S w pointer offset 8 (fun octets w' => post (ofOctets octets) w') filled after).bind
  intro octets w' here
  exact .pure here

theorem runs_load32 {pointer offset : Nat} {post : Nat → World → Prop} (filled : Filled w (pointer + offset) 4)
    (after : post (w.half (pointer + offset)) w) : Machine.Runs Same (load32 S pointer offset) w post := by
  apply (@runs_load S w pointer offset 4 (fun octets w' => post (ofOctets octets) w') filled after).bind
  intro octets w' here
  exact .pure here

theorem runs_store {pointer offset : Nat} {octets : List UInt8} {post : Unit → World → Prop} (none : octets = [] → post () w)
    (after : octets ≠ [] → pointer ≠ 0 → InBounds S w pointer offset octets.length → post () (w.put (pointer + offset) octets)) :
    Machine.Runs Same (store S pointer offset octets) w post := by
  intro v like
  unfold store
  split
  · rename_i empty
    exact ⟨rfl, like, fun x _ => none empty⟩
  · rename_i some
    split
    · exact ⟨rfl, like, fun x same => by cases same⟩
    · rename_i valid
      by_cases bounds : InBounds S w pointer offset octets.length
      · rw [if_pos bounds, if_pos (like.inBounds.mpr bounds)]
        exact ⟨rfl, like.put _ octets, fun x _ => after some valid bounds⟩
      · rw [if_neg bounds, if_neg fun there => bounds (like.inBounds.mp there)]
        exact ⟨rfl, like, fun x same => by cases same⟩

theorem runs_store64 {pointer offset value : Nat} {post : Unit → World → Prop}
    (after : pointer ≠ 0 → InBounds S w pointer offset 8 → post () (w.put (pointer + offset) (toOctets 8 value))) :
    Machine.Runs Same (store64 S pointer offset value) w post :=
  runs_store (fun empty => absurd (congrArg List.length empty) (by simp)) fun _ => by simpa using after

theorem runs_allocate {purpose : Purpose} {size : Nat} {post : Nat → World → Prop}
    (refused : ∀ arena heap, Arena.allocate (S.malloc w.calls w.heap) w.arena w.heap size = some (none, arena, heap) →
      post 0 { w with arena, heap, calls := w.calls + 1 })
    (met : ∀ pointer arena heap, Arena.allocate (S.malloc w.calls w.heap) w.arena w.heap size = some (some pointer, arena, heap) →
      post pointer { w with
        arena, heap, calls := w.calls + 1, regions := ⟨pointer, size⟩ :: w.regions, purposes := purpose :: w.purposes }) :
    Machine.Runs Same (allocate S purpose size) w post := by
  intro v like
  have both := like.arena.allocate (S.malloc w.calls w.heap) w.heap size
  unfold allocate
  rw [← like.calls, ← like.heap]
  revert refused met
  generalize Arena.allocate (S.malloc w.calls w.heap) w.arena w.heap size = result at both
  generalize Arena.allocate (S.malloc w.calls w.heap) v.arena w.heap size = result' at both
  intro refused met
  cases both with
  | none => exact ⟨rfl, like, fun x same => by cases same⟩
  | @some r r' both =>
    obtain ⟨answer, arena, heap⟩ := r
    obtain ⟨answer', arena', heap'⟩ := r'
    obtain ⟨rfl, chain, rfl⟩ := both
    cases answer with
    | none =>
      refine ⟨rfl, ⟨chain, rfl, like.regions, like.written, rfl, like.sent, like.memory⟩, fun x same => ?_⟩
      cases same
      exact refused arena heap rfl
    | some pointer =>
      refine ⟨rfl, ⟨chain, rfl, congrArg (⟨pointer, size⟩ :: ·) like.regions, like.written, rfl, like.sent, like.memory⟩, fun x same => ?_⟩
      cases same
      exact met pointer arena heap rfl

theorem runs_writev {buffers : List (List UInt8)} {post : Option Nat → World → Prop}
    (after : ∀ answer, post answer { w with sent := w.sent ++ [buffers] }) :
    Machine.Runs Same (writev S buffers) w post := by
  intro v like
  unfold writev
  rw [← like.sent]
  exact ⟨rfl, ⟨like.arena, like.heap, like.regions, like.written, like.calls, rfl, like.memory⟩,
    fun x same => by cases same; exact after _⟩

-- From here on a field is known by its lemmas.
attribute [irreducible] World.word World.half

end Cpptrw.Leftover
