import Cpptrw.Leftover.Recycled

/-!
# Where the structures are in their blocks

`sl_arena_allocate_from_block` hands out what is behind the last allocation. A
block begins at a multiple of 8, and the sizes of structures are multiples of 8;
so it is the names, values and other octets in a block that decide where the
next structure comes to be. `Carved` is the arena with a record of what was
allocated for which use since it was rewound.
-/

namespace Cpptrw.Leftover

open Lib Arena Fcgi Hashtable
open Text (sizeofString)

/-- What the program calls `sl_arena_allocate` for: structures, arrays of pointers to them, names, values and
data with a terminator behind them, and the buffers of strings. -/
inductive Use where
  | param
  | string
  | bucket
  | buckets (size : Nat)
  | data (length : UInt32)
  | characters (size : Nat)
  deriving DecidableEq

namespace Use

def purpose : Use → Purpose
  | param => .param
  | string => .string
  | bucket => .bucket
  | buckets _ => .buckets
  | data _ => .data
  | characters _ => .characters

def size : Use → Nat
  | param => sizeofMsgParam
  | string => sizeofString
  | bucket => sizeofBucket
  | buckets size => wrap64 (sizeofPointer * pow2Size size)
  | data length => length.toNat + 1
  | characters size => pow2Size size

/-- What is made of words. -/
def IsStructure : Use → Prop
  | data _ => False
  | characters _ => False
  | _ => True

/-- The octets that are not part of a structure. -/
def loose : Use → Nat
  | data length => length.toNat + 1
  | characters size => pow2Size size
  | _ => 0

theorem dvd_size {use : Use} (structured : use.IsStructure) : 8 ∣ use.size := by
  cases use with
  | data _ => exact structured.elim
  | characters _ => exact structured.elim
  | buckets count =>
    rw [size, sizeofPointer, wrap64]
    omega
  | _ => decide

/-- In a block, only loose octets shift what comes behind. -/
theorem size_mod (use : Use) : use.size % 8 = use.loose % 8 := by
  cases use with
  | data _ => rfl
  | characters _ => rfl
  | param => exact Nat.mod_eq_zero_of_dvd (@dvd_size param trivial)
  | string => exact Nat.mod_eq_zero_of_dvd (@dvd_size string trivial)
  | bucket => exact Nat.mod_eq_zero_of_dvd (@dvd_size bucket trivial)
  | buckets size => exact Nat.mod_eq_zero_of_dvd (@dvd_size (buckets size) trivial)

/-- The arena can be asked for whatever the program asks for. -/
theorem requestable (use : Use) : Requestable use.size := by
  cases use with
  | param => exact Or.inl (by decide)
  | string => exact Or.inl (by decide)
  | bucket => exact Or.inl (by decide)
  | buckets size =>
    rcases pow2Size_cases size with none | ⟨k, bits, power⟩
    · rw [Use.size, none]
      exact Or.inl (by decide)
    · rw [Use.size, power]
      exact requestable_slots bits
  | data length =>
    have word := length.toNat_lt
    rw [Use.size]
    exact Or.inl (by omega)
  | characters size => exact requestable_pow2Size size

end Use

/-- An allocation and what it is for. -/
structure Carving where
  use : Use
  address : Nat

def Carving.region (carving : Carving) : Region := ⟨carving.address, carving.use.size⟩

/-- The loose octets in a block. -/
def looseIn (block : Block) (carvings : List Carving) : Nat :=
  ((carvings.filter fun carving => carving.region.Within block.payload).map fun carving => carving.use.loose).sum

/-- The arena, its blocks, and what was carved from them since the last rewind. -/
structure Carved where
  arena : SlArena
  heap : Heap := []
  carvings : List Carving := []

/-- A run begins behind `sl_arena_init`. -/
def Uncarved (preallocate : Nat) (s : Carved) : Prop := s = { arena := init preallocate }

/-- The carvings behind a call of `sl_arena_allocate`. -/
def carved (use : Use) (carvings : List Carving) : Option Nat → List Carving
  | none => carvings
  | some address => ⟨use, address⟩ :: carvings

/-- What is assumed of `malloc`. -/
structure Mallocs (malloc : Nat → Option Nat) (heap : Heap) : Prop where
  fresh : Fresh malloc heap
  aligned : ∀ size address, malloc size = some address → 16 ∣ address

/-- A call that is allowed, or a rewind. -/
inductive Carves (allowed : Carved → Use → Prop) : Carved → Carved → Prop
  | allocate (s : Carved) {malloc : Nat → Option Nat} (mallocs : Mallocs malloc s.heap) {use : Use}
      (may : allowed s use) {buffer : Option Nat} {arena : SlArena} {heap : Heap}
      (h : Arena.allocate malloc s.arena s.heap use.size = some (buffer, arena, heap)) :
      Carves allowed s ⟨arena, heap, carved use s.carvings buffer⟩
  | rewind (s : Carved) {heap : Heap} (h : Arena.rewind s.arena s.heap = some heap) : Carves allowed s ⟨s.arena, heap, []⟩

/-- The block from which a size will be taken, if one has room. -/
def roomFor (size : Nat) (heap : Heap) : Option Block := heap.find? fun block => size ≤ block.allocated - block.used

/-- **The condition under which a structure is aligned**: it comes from a new block, or the loose octets in
the first block with room for it are a multiple of 8. -/
def Fits (s : Carved) (use : Use) : Prop :=
  use.IsStructure → ∀ block, roomFor use.size s.heap = some block → 8 ∣ looseIn block s.carvings

/-! ## Loose octets -/

variable {block other : Block} {carvings : List Carving}

theorem looseIn_cons (block : Block) (carving : Carving) (carvings : List Carving) :
    looseIn block (carving :: carvings) =
      (if carving.region.Within block.payload then carving.use.loose else 0) + looseIn block carvings := by
  unfold looseIn
  rw [List.filter_cons]
  by_cases inside : carving.region.Within block.payload
  · simp [inside]
  · simp [inside]

theorem looseIn_eq_zero (outside : ∀ carving ∈ carvings, ¬carving.region.Within block.payload) : looseIn block carvings = 0 := by
  have none : carvings.filter (fun carving => carving.region.Within block.payload) = [] := by
    rw [List.filter_eq_nil_iff]
    intro carving there
    simpa using outside carving there
  rw [looseIn, none]
  rfl

/-- What is in one block is not in another. -/
theorem not_within_other (apart : block.storage.Disjoint other.storage) {r : Region} (inside : r.Within block.payload) :
    ¬r.Within other.payload := by
  simp only [Region.Within, Region.Disjoint, Block.storage, Block.payload, headerSize] at *
  omega

/-- The search for room, and the block it finds. -/
theorem takeFirst_roomFor (size : Nat) (heap : Heap) :
    roomFor size heap = none ∧ takeFirst size heap = none ∨
    ∃ before block after, heap = before ++ block :: after ∧ roomFor size heap = some block ∧
      size ≤ block.allocated - block.used ∧ takeFirst size heap = some (block.free, before ++ block.take size :: after) := by
  induction heap with
  | nil => exact Or.inl ⟨rfl, rfl⟩
  | cons block rest ih =>
    rw [roomFor, List.find?_cons, takeFirst]
    by_cases fits : size ≤ block.allocated - block.used
    · exact Or.inr ⟨[], block, rest, rfl, by simp [fits], fits, by simp [fits]⟩
    · rw [if_neg fits, decide_eq_false fits]
      rcases ih with ⟨missed, result⟩ | ⟨before, found, after, split, there, room, result⟩
      · exact Or.inl ⟨missed, by rw [result]; rfl⟩
      · exact Or.inr ⟨block :: before, found, after, by rw [split]; rfl, there, room, by rw [result]; rfl⟩

/-! ## What every call keeps -/

/-- How much of a block is used is, up to words, what is loose in it. -/
structure Carved.Sound (s : Carved) : Prop where
  sound : State.Sound ⟨s.arena, s.heap, s.carvings.map Carving.region⟩
  aligned : ∀ block ∈ s.heap, 16 ∣ block.address
  loose : ∀ block ∈ s.heap, block.used % 8 = looseIn block s.carvings % 8

namespace Carved.Sound

variable {arena : SlArena} {before after heap : Heap} {use : Use}

/-- An allocation from a block that has room. -/
theorem take (h : Carved.Sound ⟨arena, before ++ block :: after, carvings⟩) (fits : use.size ≤ block.allocated - block.used) :
    Carved.Sound ⟨arena.count use.size, before ++ block.take use.size :: after, ⟨use, block.free⟩ :: carvings⟩ := by
  have here : block ∈ before ++ block :: after := List.mem_append_right _ List.mem_cons_self
  have used := (h.sound.chained.bounded block here).used
  have inside : (Carving.region ⟨use, block.free⟩).Within block.payload := by
    simp only [Carving.region, Region.Within, Block.payload, Block.free]
    omega
  constructor
  · exact h.sound.take fits
  · exact forall_replace h.aligned id
  · have others : ∀ other ∈ before ++ after, other.used % 8 = looseIn other (⟨use, block.free⟩ :: carvings) % 8 := by
      intro other there
      rw [looseIn_cons, if_neg (not_within_other (h.sound.chained.apart.others other there) inside), Nat.zero_add]
      apply h.loose
      rcases List.mem_append.mp there with there | there
      · exact List.mem_append_left _ there
      · exact List.mem_append_right _ (List.mem_cons_of_mem _ there)
    intro other there
    rcases List.mem_append.mp there with there | there
    · exact others other (List.mem_append_left _ there)
    · rcases List.mem_cons.mp there with rfl | there
      · have before : block.used % 8 = looseIn block carvings % 8 := h.loose block here
        have size := use.size_mod
        have more : looseIn (block.take use.size) (⟨use, block.free⟩ :: carvings) = use.loose + looseIn block carvings :=
          (looseIn_cons ..).trans (congrArg (· + looseIn block carvings) (if_pos inside))
        change (block.used + use.size) % 8 = looseIn (block.take use.size) (⟨use, block.free⟩ :: carvings) % 8
        rw [more]
        omega
      · exact others other (List.mem_append_right _ there)

/-- A new block, of which nothing is used. -/
theorem extend (h : Carved.Sound ⟨arena, heap, carvings⟩) {new : Block} (empty : new.used = 0) (aligned : 16 ∣ new.address)
    (fresh : ∀ block ∈ heap, block.storage.Disjoint new.storage)
    (grown : Chained (arena.extend new) (relink new.address heap ++ [new])) :
    Carved.Sound ⟨arena.extend new, relink new.address heap ++ [new], carvings⟩ := by
  have outside : ∀ carving ∈ carvings, ¬carving.region.Within new.payload := by
    intro carving there
    obtain ⟨block, found, within⟩ := h.sound.inside _ (List.mem_map_of_mem there)
    have used := (h.sound.chained.bounded block found).used
    refine not_within_other (fresh block found) (within.trans ?_)
    simp only [Region.Within, Block.taken, Block.payload]
    omega
  constructor
  · exact h.sound.extend (relinked_relink new.address heap) grown
  · exact forall_extend (forall_relink (fun _ _ => id) h.aligned) aligned
  · refine forall_extend (forall_relink (fun _ _ => id) h.loose) ?_
    rw [empty, looseIn_eq_zero outside]

/-- **One call.** The structure it is for is aligned exactly when it fits. -/
theorem allocate {s : Carved} (h : s.Sound) {malloc : Nat → Option Nat} (mallocs : Mallocs malloc s.heap) (use : Use) :
    ∃ buffer arena heap, Arena.allocate malloc s.arena s.heap use.size = some (buffer, arena, heap) ∧
      Carved.Sound ⟨arena, heap, carved use s.carvings buffer⟩ ∧
      ∀ pointer, buffer = some pointer → use.IsStructure → (8 ∣ pointer ↔ Fits s use) := by
  obtain ⟨arena, heap, carvings⟩ := s
  have chained : Chained arena heap := h.sound.chained
  have bounded := blockSize_le chained.preallocate use.requestable
  have askable : Askable arena use.size := by
    unfold Askable headerSize
    omega
  dsimp only
  rw [allocate_eq chained.chain mallocs.fresh askable, allocation]
  rcases takeFirst_roomFor use.size heap with ⟨full, missed⟩ | ⟨before, block, after, rfl, found, fits, result⟩
  · have onward : Fits ⟨arena, heap, carvings⟩ use := by
      intro _ block there
      rw [full] at there
      cases there
    rw [missed]
    cases answer : malloc (request arena use.size) with
    | none => exact ⟨_, _, _, rfl, h, fun _ refused => absurd refused.symm (Option.some_ne_none _)⟩
    | some address =>
      let new : Block := { address, allocated := blockSize arena use.size }
      have aligned : 16 ∣ new.address := mallocs.aligned _ _ answer
      have grown : Chained (arena.extend new) (relink new.address heap ++ [new]) := by
        have allocated : ∀ block ∈ heap, block.allocated ≤ 2 ^ 63 := fun block there => (chained.bounded block there).allocated
        exact (chained.chain.grow_fresh mallocs.fresh askable answer).2.chained (forall_extend (forall_relink (fun _ _ => id) allocated) bounded)
          chained.preallocate
      have fresh : ∀ block ∈ heap, block.storage.Disjoint new.storage := by
        intro block there
        have apart := mallocs.fresh _ _ answer block there
        rwa [askable.request_eq] at apart
      have extended := h.extend rfl aligned fresh grown
      by_cases fits : use.size ≤ new.allocated
      · refine ⟨some new.free, _, _, congrArg some (if_pos fits), extended.take fits, fun pointer here _ => iff_of_true ?_ onward⟩
        cases here
        simp only [Block.free, new, headerSize] at *
        omega
      · exact ⟨none, _, _, congrArg some (if_neg fits), extended, fun _ refused => absurd refused.symm (Option.some_ne_none _)⟩
  · rw [result]
    refine ⟨_, _, _, rfl, h.take fits, fun pointer place structured => ?_⟩
    cases place
    have here : block ∈ before ++ block :: after := List.mem_append_right _ List.mem_cons_self
    have aligned : 16 ∣ block.address := h.aligned block here
    have loose : block.used % 8 = looseIn block carvings % 8 := h.loose block here
    rw [Block.free, headerSize]
    constructor
    · intro divides _ other there
      cases found.symm.trans there
      change 8 ∣ looseIn block carvings
      omega
    · intro placed
      have words : 8 ∣ looseIn block carvings := placed structured block found
      omega

/-- A rewind leaves nothing in the blocks. -/
theorem rewind {s : Carved} (h : s.Sound) : ∃ heap, Arena.rewind s.arena s.heap = some heap ∧ Carved.Sound ⟨s.arena, heap, []⟩ := by
  have result := @rewindFrom_eq s.heap [] _ _ h.sound.chained.apart h.sound.chained.linked (Nat.le_refl _)
  obtain ⟨heap, same, sound⟩ := h.sound.rewind
  cases same.symm.trans result
  refine ⟨_, result, sound, fun block there => ?_, fun block there => ?_⟩
  · obtain ⟨old, found, rfl⟩ := List.mem_map.mp there
    exact h.aligned old found
  · obtain ⟨old, -, rfl⟩ := List.mem_map.mp there
    rfl

end Carved.Sound

/-- The invariant of all runs, whatever the calls are for. -/
theorem sound_of_reached {preallocate : Nat} (small : preallocate < 2 ^ 62) {allowed : Carved → Use → Prop} {s : Carved}
    (h : Reached (Uncarved preallocate) (Carves allowed) s) : s.Sound := by
  apply h.invariant
  · intro s first
    subst first
    exact ⟨⟨⟨rfl, rfl, .nil, by simp, small⟩, by simp, .nil⟩, by simp, by simp⟩
  · intro s s' sound step
    cases step with
    | @allocate malloc mallocs use may buffer arena heap result =>
      obtain ⟨buffer', arena', heap', run, sound', -⟩ := sound.allocate mallocs use
      cases run.symm.trans result
      exact sound'
    | rewind result =>
      obtain ⟨heap, run, sound'⟩ := sound.rewind
      cases run.symm.trans result
      exact sound'

/-- Every structure so far is at a multiple of 8. -/
theorem aligned_of_reached {preallocate : Nat} (small : preallocate < 2 ^ 62) {s : Carved}
    (h : Reached (Uncarved preallocate) (Carves Fits) s) : ∀ carving ∈ s.carvings, carving.use.IsStructure → 8 ∣ carving.address := by
  induction h with
  | first h =>
    subst h
    exact fun carving none => absurd none List.not_mem_nil
  | @step s s' before step aligned =>
    have sound : s.Sound := sound_of_reached small before
    cases step with
    | @allocate malloc mallocs use may buffer arena heap result =>
      obtain ⟨buffer', arena', heap', run, -, here⟩ := sound.allocate mallocs use
      cases run.symm.trans result
      intro carving there structured
      cases buffer with
      | none => exact aligned carving there structured
      | some pointer =>
        rcases List.mem_cons.mp there with rfl | there
        · exact (here pointer rfl structured).mpr may
        · exact aligned carving there structured
    | rewind result => exact fun carving none => absurd none List.not_mem_nil

/-- **Structures are aligned as long as what is loose in their blocks is a multiple of 8.** In every
state of such a run all the structures are; and the buffer of a further call for a structure is if and
only if it fits so. -/
theorem alignment_iff {preallocate : Nat} (small : preallocate < 2 ^ 62) {s : Carved}
    (h : Reached (Uncarved preallocate) (Carves Fits) s) :
    (∀ carving ∈ s.carvings, carving.use.IsStructure → 8 ∣ carving.address) ∧
    ∀ malloc use, Mallocs malloc s.heap → use.IsStructure →
      ∃ buffer arena heap, Arena.allocate malloc s.arena s.heap use.size = some (buffer, arena, heap) ∧
        ∀ pointer, buffer = some pointer → (8 ∣ pointer ↔ Fits s use) := by
  refine ⟨aligned_of_reached small h, fun malloc use mallocs structured => ?_⟩
  have sound : s.Sound := sound_of_reached small h
  obtain ⟨buffer, arena, heap, run, -, here⟩ := sound.allocate mallocs use
  exact ⟨buffer, arena, heap, run, fun pointer place => here pointer place structured⟩

/-! ## The parameter records of the parser -/

/-- The arena of a world is one that was carved so. -/
structure Carved.In (s : Carved) (w : World) : Prop where
  arena : w.arena = s.arena
  heap : w.heap = s.heap
  regions : w.regions = s.carvings.map Carving.region
  purposes : w.purposes = s.carvings.map fun carving => carving.use.purpose

/-- A call in the program is a step of the arena. -/
theorem allocate_carves {S : Setting} {w : World} {s : Carved} (sound : s.Sound) (same : s.In w)
    (mallocs : Mallocs (S.malloc w.calls w.heap) w.heap) (use : Use) :
    ∃ pointer w' s', allocate S use.purpose use.size w = (.ok pointer, w') ∧ Carves (fun _ _ => True) s s' ∧ s'.Sound ∧ s'.In w' ∧
      (pointer ≠ 0 → use.IsStructure → (8 ∣ pointer ↔ Fits s use)) := by
  obtain ⟨arena, heap, regions, purposes⟩ := same
  rw [heap] at mallocs
  obtain ⟨buffer, arena', heap', run, sound', here⟩ := sound.allocate mallocs use
  have step := @Carves.allocate (fun _ _ => True) s _ mallocs use trivial buffer arena' heap' run
  rw [Leftover.allocate, arena, heap, run]
  cases buffer with
  | none => exact ⟨_, _, _, rfl, step, sound', ⟨rfl, rfl, regions, purposes⟩, fun null => absurd rfl null⟩
  | some pointer =>
    refine ⟨_, _, _, rfl, step, sound', ⟨rfl, rfl, ?_, ?_⟩, fun _ => here pointer rfl⟩
    · exact congrArg (⟨pointer, use.size⟩ :: ·) regions
    · exact congrArg (use.purpose :: ·) purposes

/-- **A new parameter** is aligned if and only if it fits in the arena that the parser has left by then. -/
theorem lastParam_aligned_iff {S : Setting} {w w' : World} {s : Carved} (sound : s.Sound) (same : s.In w)
    (mallocs : Mallocs (S.malloc w.calls w.heap) w.heap) {octet : UInt8} {p p' : Parser}
    (run : p.paramNameLengthB3 S octet w = (.ok (.done p'), w')) (met : p'.state ≠ .error) :
    8 ∣ p'.lastParam ↔ Fits s .param := by
  obtain ⟨pointer, w₁, allocated, run⟩ := Machine.exists_of_run_bind run
  obtain ⟨pointer', w₁', s', run', -, -, -, aligned⟩ := allocate_carves sound same mallocs .param
  cases allocated.symm.trans run'
  by_cases null : pointer = 0
  · rw [if_pos null] at run
    cases run
    exact absurd rfl met
  · rw [if_neg null] at run
    obtain ⟨-, w₂, -, run⟩ := Machine.exists_of_run_bind run
    obtain ⟨-, w₃, -, run⟩ := Machine.exists_of_run_bind run
    obtain ⟨⟨size, long⟩, w₄, -, run⟩ := Machine.exists_of_run_bind run
    cases run
    exact aligned null trivial

theorem mallocs_onePlace (call : Nat) (heap : Heap) : Mallocs (onePlace.malloc call heap) heap := by
  refine ⟨sound_onePlace.fresh call heap, fun size address answer => ?_⟩
  rw [(onePlace_malloc answer).2]
  decide

/-- The arena of the server before its first allocation. -/
def uncarved : Carved := { arena := init arenaPreallocate }

/-- One more call, with a `malloc` that has one place. -/
def carve (s : Carved) (use : Use) : Carved :=
  match Arena.allocate (onePlace.malloc 0 s.heap) s.arena s.heap use.size with
  | none => s
  | some (buffer, arena, heap) => ⟨arena, heap, carved use s.carvings buffer⟩

/-- Each of the calls fits. -/
def FitAll : Carved → List Use → Prop
  | _, [] => True
  | s, use :: uses => Fits s use ∧ FitAll (carve s use) uses

instance : DecidablePred Use.IsStructure
  | .data _ | .characters _ => isFalse id
  | .param | .string | .bucket | .buckets _ => isTrue trivial

instance (s : Carved) (use : Use) : Decidable (Fits s use) :=
  inferInstanceAs (Decidable (use.IsStructure → ∀ block ∈ roomFor use.size s.heap, 8 ∣ looseIn block s.carvings))

instance decidableFitAll : ∀ (s : Carved) (uses : List Use), Decidable (FitAll s uses)
  | _, [] => inferInstanceAs (Decidable True)
  | s, use :: uses =>
    have := decidableFitAll (carve s use) uses
    inferInstanceAs (Decidable (_ ∧ _))

theorem reached_carve {s : Carved} (h : Reached (Uncarved arenaPreallocate) (Carves Fits) s) (use : Use) (fits : Fits s use) :
    Reached (Uncarved arenaPreallocate) (Carves Fits) (carve s use) := by
  have sound : s.Sound := sound_of_reached (by decide) h
  obtain ⟨buffer, arena, heap, run, -, -⟩ := sound.allocate (mallocs_onePlace 0 s.heap) use
  rw [carve, run]
  exact .step h (.allocate s (mallocs_onePlace 0 s.heap) fits run)

theorem reached_carveAll (uses : List Use) :
    ∀ {s : Carved}, Reached (Uncarved arenaPreallocate) (Carves Fits) s → FitAll s uses →
      Reached (Uncarved arenaPreallocate) (Carves Fits) (uses.foldl carve s) := by
  induction uses with
  | nil => exact fun h _ => h
  | cons use uses ih => exact fun h fits => ih (reached_carve h use fits.1) fits.2

/-- A parameter, a name and a value of three octets, the string that is logged with its buffer, a second
parameter and a name of one octet. -/
def logged : List Use := [.param, .data 3, .data 3, .string, .characters 64, .param, .data 1]

/-- Behind them the next structure does not fit. -/
theorem alignment_iff_logged :
    (∀ carving ∈ (logged.foldl carve uncarved).carvings, carving.use.IsStructure → 8 ∣ carving.address) ∧
    (∀ malloc use, Mallocs malloc (logged.foldl carve uncarved).heap → use.IsStructure →
      ∃ buffer arena heap,
        Arena.allocate malloc (logged.foldl carve uncarved).arena (logged.foldl carve uncarved).heap use.size = some (buffer, arena, heap) ∧
          ∀ pointer, buffer = some pointer → (8 ∣ pointer ↔ Fits (logged.foldl carve uncarved) use)) ∧
    (logged.foldl carve uncarved).carvings.length = 7 ∧ ¬Fits (logged.foldl carve uncarved) .string := by
  have reached : Reached (Uncarved arenaPreallocate) (Carves Fits) (logged.foldl carve uncarved) :=
    reached_carveAll logged (.first rfl) (by decide +kernel)
  obtain ⟨aligned, further⟩ := alignment_iff (by decide) reached
  exact ⟨aligned, further, by decide +kernel, by decide +kernel⟩

def blank : World := { memory := fun _ => 0, arena := init arenaPreallocate, heap := [] }

/-- A record of parameters: `A` is `B`, and an empty one. -/
def twoParameters : List UInt8 := [1, 4, 0, 1, 0, 6, 0, 0, 1, 1, 65, 66, 0, 0]

/-- The name and the value of the first parameter have two octets each, and leave the string of the
log and the second parameter four octets behind a multiple of 8. -/
theorem second_parameter_misaligned :
    (∀ call heap, Mallocs (onePlace.malloc call heap) heap) ∧
    ((Parser.parse onePlace {} twoParameters blank).1.map fun r => (r.1.state, r.2, r.1.lastParam)) =
      .ok (.paramNameData, 14, 2 ^ 30 + 148) ∧
    ¬8 ∣ 2 ^ 30 + 148 :=
  ⟨mallocs_onePlace, by decide +kernel, by decide⟩

end Cpptrw.Leftover
