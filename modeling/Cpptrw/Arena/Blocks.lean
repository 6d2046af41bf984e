import Cpptrw.Lib.Reach
import Cpptrw.Lib.Region
import Cpptrw.Lib.Word
import Mathlib.Data.List.ModifyLast

/-!
# The arena and its chain of blocks (`sl_arena.c`)

A block is known by the address of its header; the payload comes behind the
header. The heap holds the blocks that `malloc` was asked for, in the order of
the requests, and a pointer is `none` for `NULL`. A result `none` of a function
means that it went to an address where there is no block, or that it was still
on the chain after as many blocks as there are.
-/

namespace Cpptrw.Arena

open Lib

/-- `sl_arena_block`, without the payload. -/
structure Block where
  address : Nat
  next : Option Nat := none
  allocated : Nat
  used : Nat := 0
  deriving DecidableEq, Repr

/-- `sizeof(sl_arena_block)`. -/
def headerSize : Nat := 24

/-- `sl_arena`. -/
structure SlArena where
  first : Option Nat := none
  last : Option Nat := none
  preallocate : Nat
  allocations : Nat := 0
  allocated : Nat := 0
  blocks : Nat := 0
  used : Nat := 0
  deriving DecidableEq, Repr

abbrev Heap := List Block

namespace Heap

/-- Reading the block that a pointer leads to. -/
def load (heap : Heap) (pointer : Nat) : Option Block := heap.find? fun block => block.address = pointer

/-- Writing to the header of a block. -/
def store (heap : Heap) (block : Block) : Heap :=
  heap.map fun other => if other.address = block.address then block else other

/-- `last->next = block`, if there is a last block. -/
def link (heap : Heap) (last : Option Nat) (pointer : Nat) : Option Heap :=
  match last with
  | none => some heap
  | some last => do
    let block ← heap.load last
    return heap.store { block with next := some pointer }

end Heap

/-- `sl_arena_create_block`. -/
def createBlock (malloc : Nat → Option Nat) (heap : Heap) (size : Nat) : Option Nat × Heap :=
  match malloc (wrap64 (headerSize + size)) with
  | none => (none, heap)
  | some address => (some address, heap ++ [{ address, allocated := size }])

/-- `sl_arena_allocate_from_block`. -/
def allocateFromBlock (heap : Heap) (pointer size : Nat) : Option (Option Nat × Heap) := do
  let block ← heap.load pointer
  if size > sub64 block.allocated block.used then
    return (none, heap)
  else
    return (some (pointer + headerSize + block.used), heap.store { block with used := wrap64 (block.used + size) })

/-- `sl_arena_init`. -/
def init (preallocate : Nat) : SlArena := { preallocate }

/-- The loop of `sl_arena_rewind`, from a pointer on. -/
def rewindFrom : Nat → Heap → Option Nat → Option Heap
  | _, heap, none => some heap
  | 0, _, some _ => none
  | fuel + 1, heap, some pointer => do
    let block ← heap.load pointer
    rewindFrom fuel (heap.store { block with used := 0 }) block.next

/-- `sl_arena_rewind`. -/
def rewind (arena : SlArena) (heap : Heap) : Option Heap := rewindFrom heap.length heap arena.first

/-- The loop of `sl_arena_allocate`, from a pointer on. -/
def firstFit (size : Nat) : Nat → Heap → Option Nat → Option (Option Nat × Heap)
  | _, heap, none => some (none, heap)
  | 0, _, some _ => none
  | fuel + 1, heap, some pointer => do
    let (buffer, heap) ← allocateFromBlock heap pointer size
    if buffer ≠ none then
      return (buffer, heap)
    else
      let block ← heap.load pointer
      firstFit size fuel heap block.next

/-- The payload of a block that is created for an allocation. -/
def blockSize (arena : SlArena) (size : Nat) : Nat :=
  if size > arena.preallocate >>> 1 then wrap64 (size <<< 1) else arena.preallocate

/-- `arena->allocations ++` and `arena->used += size`. -/
def SlArena.count (arena : SlArena) (size : Nat) : SlArena :=
  { arena with allocations := wrap64 (arena.allocations + 1), used := wrap64 (arena.used + size) }

/-- `sl_arena_allocate`. -/
def allocate (malloc : Nat → Option Nat) (arena : SlArena) (heap : Heap) (size : Nat) :
    Option (Option Nat × SlArena × Heap) := do
  let (buffer, heap) ← firstFit size heap.length heap arena.first
  if buffer ≠ none then
    return (buffer, arena.count size, heap)
  else
    match createBlock malloc heap (blockSize arena size) with
    | (none, heap) => return (none, arena, heap)
    | (some pointer, heap) =>
      let heap ← heap.link arena.last pointer
      let block ← heap.load pointer
      let arena := { arena with
        last := some pointer
        blocks := wrap64 (arena.blocks + 1)
        allocated := wrap64 (arena.allocated + block.allocated) }
      let arena := if arena.first = none then { arena with first := arena.last } else arena
      let (buffer, heap) ← allocateFromBlock heap pointer size
      if buffer = none then
        return (none, arena, heap)
      else
        return (buffer, arena.count size, heap)

/-! ## Headers in the heap -/

namespace Block

/-- What `malloc` returned for the block. -/
def storage (block : Block) : Region := ⟨block.address, headerSize + block.allocated⟩

def payload (block : Block) : Region := ⟨block.address + headerSize, block.allocated⟩

/-- The part of the payload that is handed out. -/
def taken (block : Block) : Region := ⟨block.address + headerSize, block.used⟩

end Block

/-- The chain from this pointer is exactly these blocks. -/
def Linked : Option Nat → List Block → Prop
  | pointer, [] => pointer = none
  | pointer, block :: rest => pointer = some block.address ∧ Linked block.next rest

/-- Storage of one block is apart from the storage of every other. -/
def Apart (heap : Heap) : Prop := heap.Pairwise fun block other => block.storage.Disjoint other.storage

variable {heap before after : Heap} {block : Block}

/-- What holds of all blocks, with one more behind them. -/
theorem forall_extend {Q : Block → Prop} {new : Block} (h : ∀ block ∈ heap, Q block) (here : Q new) :
    ∀ block ∈ heap ++ [new], Q block :=
  List.forall_mem_append.mpr ⟨h, List.forall_mem_singleton.mpr here⟩

/-- What holds of all blocks, with another in the place of one. -/
theorem forall_replace {Q : Block → Prop} {block' : Block} (h : ∀ other ∈ before ++ block :: after, Q other) (here : Q block → Q block') :
    ∀ other ∈ before ++ block' :: after, Q other := by
  rw [List.forall_mem_append, List.forall_mem_cons] at h ⊢
  exact ⟨h.1, here h.2.1, h.2.2⟩

theorem Apart.others (h : Apart (before ++ block :: after)) : ∀ other ∈ before ++ after, block.storage.Disjoint other.storage := by
  obtain ⟨-, behind, across⟩ := List.pairwise_append.mp h
  intro other there
  rcases List.mem_append.mp there with there | there
  · exact (across other there block List.mem_cons_self).symm
  · exact (List.pairwise_cons.mp behind).1 other there

theorem Apart.address_ne (h : Apart (before ++ block :: after)) : ∀ other ∈ before ++ after, other.address ≠ block.address := by
  intro other there same
  have apart := h.others other there
  simp only [Region.Disjoint, Block.storage, headerSize, same] at apart
  omega

theorem Apart.load (h : Apart (before ++ block :: after)) : Heap.load (before ++ block :: after) block.address = some block := by
  rw [Heap.load, List.find?_append, List.find?_cons_of_pos (by simp)]
  have absent : before.find? (fun other => other.address = block.address) = none := by
    rw [List.find?_eq_none]
    intro other there
    simpa using h.address_ne other (List.mem_append_left _ there)
  rw [absent]
  rfl

theorem Apart.store (h : Apart (before ++ block :: after)) (block' : Block) (same : block'.address = block.address) :
    Heap.store (before ++ block :: after) block' = before ++ block' :: after := by
  have others : ∀ rest : Heap, (∀ other ∈ rest, other.address ≠ block.address) →
      rest.map (fun other => if other.address = block'.address then block' else other) = rest := by
    intro rest different
    refine (List.map_congr_left fun other there => ?_).trans (List.map_id rest)
    rw [if_neg (same ▸ different other there)]
    rfl
  rw [Heap.store, List.map_append, List.map_cons, if_pos same.symm,
    others before fun other there => h.address_ne other (List.mem_append_left _ there),
    others after fun other there => h.address_ne other (List.mem_append_right _ there)]

/-- New headers in the old places keep the storage apart. -/
theorem Apart.replace (h : Apart (before ++ block :: after)) (block' : Block) (same : block'.storage = block.storage) :
    Apart (before ++ block' :: after) := by
  unfold Apart at *
  rw [List.pairwise_append, List.pairwise_cons] at *
  obtain ⟨first, ⟨behind, rest⟩, across⟩ := h
  refine ⟨first, ⟨fun other there => same ▸ behind other there, rest⟩, fun other there other' there' => ?_⟩
  rcases List.mem_cons.mp there' with rfl | there'
  · exact same ▸ across other there block List.mem_cons_self
  · exact across other there other' (List.mem_cons_of_mem _ there')

/-- A chain does not depend on what else the headers hold. -/
theorem Linked.replace (block' : Block) : ∀ {before : List Block} {pointer : Option Nat},
    Linked pointer (before ++ block :: after) → block'.address = block.address → block'.next = block.next →
      Linked pointer (before ++ block' :: after)
  | [], _, ⟨here, rest⟩, address, next => ⟨address ▸ here, next ▸ rest⟩
  | _ :: _, _, ⟨here, rest⟩, address, next => ⟨here, Linked.replace block' rest address next⟩

/-! ## What one call does -/

namespace Block

/-- Where the next allocation from the block will be. -/
def free (block : Block) : Nat := block.address + headerSize + block.used

/-- The block behind an allocation. -/
def take (block : Block) (size : Nat) : Block := { block with used := block.used + size }

/-- What the sizes in a header are. -/
structure Sized (block : Block) : Prop where
  used : block.used ≤ block.allocated
  allocated : block.allocated < 2 ^ 64

/-- The sizes in the header of a block of an arena. -/
structure Bounded (block : Block) : Prop where
  used : block.used ≤ block.allocated
  allocated : block.allocated ≤ 2 ^ 63

theorem Bounded.sized (h : block.Bounded) : block.Sized := ⟨h.used, Nat.lt_of_le_of_lt h.allocated (by decide)⟩

/-- A block that has room is not filled beyond its end. -/
theorem Sized.take (h : block.Sized) {size : Nat} (fits : size ≤ block.allocated - block.used) : (block.take size).Sized := by
  have used := h.used
  refine ⟨?_, h.allocated⟩
  simp only [Block.take]
  omega

end Block

theorem allocateFromBlock_eq (apart : Apart (before ++ block :: after)) (sized : block.Sized) (size : Nat) :
    allocateFromBlock (before ++ block :: after) block.address size =
      if size ≤ block.allocated - block.used then some (some block.free, before ++ block.take size :: after)
      else some (none, before ++ block :: after) := by
  have room : sub64 block.allocated block.used = block.allocated - block.used := sub64_of_le sized.allocated sized.used
  rw [allocateFromBlock, apart.load]
  dsimp only [Option.bind_eq_bind, Option.bind_some, Option.pure_def]
  rw [room]
  by_cases fits : size ≤ block.allocated - block.used
  · have word : wrap64 (block.used + size) = block.used + size := by
      have used := sized.used
      have allocated := sized.allocated
      apply wrap64_of_lt
      omega
    rw [if_neg (by omega), if_pos fits, word]
    exact congrArg (fun heap => some (some block.free, heap)) (apart.store (block.take size) rfl)
  · rw [if_pos (by omega), if_neg fits]

/-- The search for room, over the blocks in their order. -/
def takeFirst (size : Nat) : List Block → Option (Nat × List Block)
  | [] => none
  | block :: rest =>
    if size ≤ block.allocated - block.used then some (block.free, block.take size :: rest)
    else (takeFirst size rest).map fun found => (found.1, block :: found.2)

/-- It takes from a block that has room, or comes to the end. -/
theorem takeFirst_cases (size : Nat) (blocks : List Block) :
    takeFirst size blocks = none ∨
    ∃ before block after, blocks = before ++ block :: after ∧ size ≤ block.allocated - block.used ∧
      takeFirst size blocks = some (block.free, before ++ block.take size :: after) := by
  induction blocks with
  | nil => exact Or.inl rfl
  | cons block rest ih =>
    rw [takeFirst]
    by_cases fits : size ≤ block.allocated - block.used
    · exact Or.inr ⟨[], block, rest, rfl, fits, by simp [fits]⟩
    · rw [if_neg fits]
      rcases ih with missed | ⟨before, found, after, split, room, result⟩
      · exact Or.inl (by rw [missed]; rfl)
      · exact Or.inr ⟨block :: before, found, after, by rw [split]; rfl, room, by rw [result]; rfl⟩

/-- The loop of `sl_arena_allocate` goes through the blocks in their order. -/
theorem firstFit_eq (size : Nat) : ∀ {rest before : List Block} {fuel : Nat} {pointer : Option Nat},
    Apart (before ++ rest) → Linked pointer rest → (∀ block ∈ rest, block.Sized) → rest.length ≤ fuel →
      firstFit size fuel (before ++ rest) pointer =
        match takeFirst size rest with
        | none => some (none, before ++ rest)
        | some (buffer, blocks) => some (some buffer, before ++ blocks)
  | [], before, fuel, pointer, _, linked, _, _ => by
    rw [show pointer = none from linked]
    cases fuel <;> rfl
  | block :: rest, before, 0, _, _, _, _, enough => absurd enough (by simp)
  | block :: rest, before, fuel + 1, pointer, apart, linked, sized, enough => by
    obtain ⟨here, linked⟩ := linked
    subst here
    have look := allocateFromBlock_eq apart (sized block List.mem_cons_self) size
    rw [firstFit, look, takeFirst]
    by_cases fits : size ≤ block.allocated - block.used
    · simp [fits]
    · have onward : before ++ block :: rest = (before ++ [block]) ++ rest := by simp
      have ih := @firstFit_eq size rest (before ++ [block]) fuel block.next (onward ▸ apart) linked
        (fun other there => sized other (List.mem_cons_of_mem _ there)) (by simpa using enough)
      simp only [if_neg fits, Option.bind_eq_bind, Option.bind_some, ne_eq, not_true_eq_false, if_false, apart.load]
      rw [onward, ih]
      cases takeFirst size rest <;> simp

/-- `block->used = 0`. -/
def Block.clear (block : Block) : Block := { block with used := 0 }

theorem rewindFrom_eq : ∀ {rest before : List Block} {fuel : Nat} {pointer : Option Nat},
    Apart (before ++ rest) → Linked pointer rest → rest.length ≤ fuel →
      rewindFrom fuel (before ++ rest) pointer = some (before ++ rest.map Block.clear)
  | [], before, fuel, pointer, _, linked, _ => by
    rw [show pointer = none from linked]
    cases fuel <;> rfl
  | block :: rest, before, 0, _, _, _, enough => absurd enough (by simp)
  | block :: rest, before, fuel + 1, pointer, apart, linked, enough => by
    obtain ⟨here, linked⟩ := linked
    subst here
    have cleared : Heap.store (before ++ block :: rest) block.clear = (before ++ [block.clear]) ++ rest := by
      rw [apart.store block.clear rfl]
      simp
    have apart' : Apart ((before ++ [block.clear]) ++ rest) := by
      rw [List.append_assoc]
      exact apart.replace block.clear rfl
    calc rewindFrom (fuel + 1) (before ++ block :: rest) (some block.address)
        = rewindFrom fuel (Heap.store (before ++ block :: rest) block.clear) block.next := by
          rw [rewindFrom, apart.load]
          rfl
      _ = some ((before ++ [block.clear]) ++ rest.map Block.clear) := by
          rw [cleared, rewindFrom_eq apart' linked (by simpa using enough)]
      _ = some (before ++ (block :: rest).map Block.clear) := by simp

/-! ## The chain -/

/-- The chain of the arena is all the blocks. -/
structure Chain (arena : SlArena) (heap : Heap) : Prop where
  linked : Linked arena.first heap
  last : arena.last = heap.getLast?.map Block.address
  apart : Apart heap
  sized : ∀ block ∈ heap, block.Sized

/-- What holds between the arena and its blocks. -/
structure Chained (arena : SlArena) (heap : Heap) : Prop where
  linked : Linked arena.first heap
  last : arena.last = heap.getLast?.map Block.address
  apart : Apart heap
  bounded : ∀ block ∈ heap, block.Bounded
  preallocate : arena.preallocate < 2 ^ 62

theorem Chained.chain {arena : SlArena} (h : Chained arena heap) : Chain arena heap :=
  ⟨h.linked, h.last, h.apart, fun block there => (h.bounded block there).sized⟩

/-- The counters of the arena behind a new block. -/
def SlArena.extend (arena : SlArena) (block : Block) : SlArena :=
  { arena with
    first := arena.first.or (some block.address)
    last := some block.address
    blocks := wrap64 (arena.blocks + 1)
    allocated := wrap64 (arena.allocated + block.allocated) }

theorem Linked.snoc {last new : Block} (alone : new.next = none) :
    ∀ {before : List Block} {pointer : Option Nat}, Linked pointer (before ++ [last]) →
      Linked pointer (before ++ [{ last with next := some new.address }] ++ [new])
  | [], _, ⟨here, _⟩ => ⟨here, rfl, alone⟩
  | _ :: _, _, ⟨here, rest⟩ => ⟨here, Linked.snoc alone rest⟩

theorem Linked.first_ne_none {pointer : Option Nat} (h : Linked pointer (before ++ block :: after)) : pointer ≠ none := by
  cases before with
  | nil => rw [h.1]; exact Option.some_ne_none _
  | cons head rest => rw [h.1]; exact Option.some_ne_none _

/-- The last block leads on to another. -/
def relink (pointer : Nat) (heap : Heap) : Heap := heap.modifyLast fun last => { last with next := some pointer }

@[simp] theorem relink_nil (pointer : Nat) : relink pointer [] = [] := rfl

@[simp] theorem relink_concat (pointer : Nat) (before : Heap) (last : Block) :
    relink pointer (before ++ [last]) = before ++ [{ last with next := some pointer }] := List.modifyLast_concat ..

/-- What does not ask for `next` is the same of the blocks. -/
theorem map_relink {α : Type} {f : Block → α} (blind : ∀ block next, f { block with next } = f block) (pointer : Nat) (heap : Heap) :
    (relink pointer heap).map f = heap.map f := by
  rcases List.eq_nil_or_concat heap with rfl | ⟨before, last, rfl⟩
  · rfl
  · simp [blind]

/-- The same blocks, but for what `next` is in them. -/
structure Relinked (heap heap' : Heap) : Prop where
  forth : ∀ block ∈ heap, ∃ block' ∈ heap', block'.taken = block.taken
  back : ∀ block' ∈ heap', ∃ block ∈ heap, block'.storage = block.storage

theorem relinked_relink (pointer : Nat) (heap : Heap) : Relinked heap (relink pointer heap) := by
  constructor
  · intro block there
    have here : block.taken ∈ (relink pointer heap).map Block.taken := by
      rw [map_relink fun _ _ => rfl]
      exact List.mem_map_of_mem there
    exact List.mem_map.mp here
  · intro block there
    have here : block.storage ∈ heap.map Block.storage := by
      rw [← map_relink (fun _ _ => rfl) pointer]
      exact List.mem_map_of_mem there
    obtain ⟨old, there, same⟩ := List.mem_map.mp here
    exact ⟨old, there, same.symm⟩

/-- What holds of the sizes of the blocks does not depend on `next`. -/
theorem forall_relink {Q : Block → Prop} (blind : ∀ block next, Q block → Q { block with next }) {pointer : Nat}
    (h : ∀ block ∈ heap, Q block) : ∀ block ∈ relink pointer heap, Q block := by
  rcases List.eq_nil_or_concat heap with rfl | ⟨before, last, rfl⟩
  · exact h
  · rw [List.concat_eq_append] at *
    rw [relink_concat]
    exact forall_replace h (blind last _)

/-- A block that `malloc` returned becomes the last one; only a `next` changes in the others. -/
theorem Chain.grow {arena : SlArena} (h : Chain arena heap) {new : Block} (alone : new.next = none) (sized : new.Sized)
    (fresh : ∀ block ∈ heap, block.storage.Disjoint new.storage) :
    Heap.link (heap ++ [new]) arena.last new.address = some (relink new.address heap ++ [new]) ∧
      Chain (arena.extend new) (relink new.address heap ++ [new]) := by
  have sizes : ∀ block ∈ relink new.address heap ++ [new], block.Sized :=
    forall_extend (forall_relink (fun block next h => ⟨h.used, h.allocated⟩) h.sized) sized
  rcases List.eq_nil_or_concat heap with rfl | ⟨before, last, rfl⟩
  · constructor
    · rw [h.last]
      rfl
    · have first : arena.first = none := h.linked
      refine ⟨⟨?_, alone⟩, rfl, List.pairwise_singleton .., sizes⟩
      rw [SlArena.extend, first]
      rfl
  · rw [List.concat_eq_append] at *
    rw [relink_concat] at *
    let last' : Block := { last with next := some new.address }
    have apart : Apart (before ++ last :: [new]) := by
      have := List.pairwise_append.mpr ⟨h.apart, List.pairwise_singleton _ new, fun block there other there' =>
        List.mem_singleton.mp there' ▸ fresh block there⟩
      rwa [List.append_assoc] at this
    have apart' : Apart (before ++ last' :: [new]) := apart.replace last' rfl
    constructor
    · have stored := apart.store last' rfl
      rw [h.last, List.getLast?_concat, List.append_assoc, List.append_assoc]
      exact (congrArg (fun block => block >>= fun block => some (Heap.store _ { block with next := some new.address })) apart.load).trans
        (congrArg some stored)
    · refine ⟨?_, ?_, ?_, sizes⟩
      · have first : arena.first ≠ none := h.linked.first_ne_none
        obtain ⟨pointer, first⟩ := Option.ne_none_iff_exists'.mp first
        have linked := h.linked
        rw [first] at linked
        rw [SlArena.extend, first]
        exact linked.snoc alone
      · rw [List.getLast?_concat]
        rfl
      · rw [List.append_assoc]
        exact apart'

/-- An allocation from a block that has room. -/
theorem Chain.take {arena : SlArena} (h : Chain arena (before ++ block :: after)) {size : Nat}
    (fits : size ≤ block.allocated - block.used) : Chain (arena.count size) (before ++ block.take size :: after) := by
  have linked : Linked arena.first (before ++ block.take size :: after) := h.linked.replace (block.take size) rfl rfl
  refine ⟨linked, ?_, h.apart.replace (block.take size) rfl, ?_⟩
  · rcases List.eq_nil_or_concat after with rfl | ⟨rest, last, rfl⟩
    · rw [List.getLast?_concat]
      exact h.last.trans (by rw [List.getLast?_concat]; rfl)
    · rw [List.concat_eq_append, ← List.cons_append, ← List.append_assoc, List.getLast?_concat]
      refine h.last.trans ?_
      rw [List.concat_eq_append, ← List.cons_append, ← List.append_assoc, List.getLast?_concat]
  · exact forall_replace h.sized fun sized => sized.take fits

theorem Chain.rewind {arena : SlArena} (h : Chain arena heap) : Chain arena (heap.map Block.clear) := by
  have linked : ∀ {blocks : List Block} {pointer : Option Nat}, Linked pointer blocks → Linked pointer (blocks.map Block.clear) := by
    intro blocks
    induction blocks with
    | nil => exact id
    | cons block rest ih => exact fun h => ⟨h.1, ih h.2⟩
  refine ⟨linked h.linked, ?_, List.pairwise_map.mpr h.apart, ?_⟩
  · rw [h.last, List.getLast?_map, Option.map_map]
    rfl
  · intro block there
    obtain ⟨block', there', rfl⟩ := List.mem_map.mp there
    exact ⟨Nat.zero_le _, (h.sized block' there').allocated⟩

/-- A chain whose blocks are no larger than those of an arena. -/
theorem Chain.chained {arena : SlArena} (h : Chain arena heap) (bounded : ∀ block ∈ heap, block.allocated ≤ 2 ^ 63)
    (preallocate : arena.preallocate < 2 ^ 62) : Chained arena heap :=
  ⟨h.linked, h.last, h.apart, fun block there => ⟨(h.sized block there).used, bounded block there⟩, preallocate⟩

theorem Chained.take {arena : SlArena} (h : Chained arena (before ++ block :: after)) {size : Nat}
    (fits : size ≤ block.allocated - block.used) : Chained (arena.count size) (before ++ block.take size :: after) := by
  have allocated : ∀ other ∈ before ++ block :: after, other.allocated ≤ 2 ^ 63 := fun other there => (h.bounded other there).allocated
  exact (h.chain.take fits).chained (forall_replace allocated id) h.preallocate

theorem Chained.rewind {arena : SlArena} (h : Chained arena heap) : Chained arena (heap.map Block.clear) := by
  refine h.chain.rewind.chained (fun block there => ?_) h.preallocate
  obtain ⟨block', there', rfl⟩ := List.mem_map.mp there
  exact (h.bounded block' there').allocated

/-- `malloc` returns storage where no block is. -/
def Fresh (malloc : Nat → Option Nat) (heap : Heap) : Prop :=
  ∀ size address, malloc size = some address → ∀ block ∈ heap, block.storage.Disjoint ⟨address, size⟩

/-- The octets that `malloc` is asked for when no block has room. -/
def request (arena : SlArena) (size : Nat) : Nat := wrap64 (headerSize + blockSize arena size)

/-- The call of `sl_arena_allocate`, over the blocks in their order. -/
def allocation (malloc : Nat → Option Nat) (arena : SlArena) (heap : Heap) (size : Nat) : Option Nat × SlArena × Heap :=
  match takeFirst size heap with
  | some (buffer, heap) => (some buffer, arena.count size, heap)
  | none =>
    match malloc (request arena size) with
    | none => (none, arena, heap)
    | some address =>
      let new : Block := { address, allocated := blockSize arena size }
      if size ≤ new.allocated then (some new.free, (arena.extend new).count size, relink address heap ++ [new.take size])
      else (none, arena.extend new, relink address heap ++ [new])

/-- The block that `malloc` is asked for has a size that is a `size_t`. -/
def Askable (arena : SlArena) (size : Nat) : Prop := headerSize + blockSize arena size < 2 ^ 64

theorem Askable.request_eq {arena : SlArena} {size : Nat} (askable : Askable arena size) :
    request arena size = headerSize + blockSize arena size := wrap64_of_lt askable

/-- The chain behind a new block. -/
theorem Chain.grow_fresh {arena : SlArena} (h : Chain arena heap) {malloc : Nat → Option Nat} (fresh : Fresh malloc heap) {size : Nat}
    (askable : Askable arena size) {address : Nat} (answer : malloc (request arena size) = some address) :
    Heap.link (heap ++ [{ address, allocated := blockSize arena size }]) arena.last address =
        some (relink address heap ++ [{ address, allocated := blockSize arena size }]) ∧
      Chain (arena.extend { address, allocated := blockSize arena size })
        (relink address heap ++ [{ address, allocated := blockSize arena size }]) := by
  refine @Chain.grow _ _ h { address, allocated := blockSize arena size } rfl ⟨Nat.zero_le _, ?_⟩ fun block there => ?_
  · unfold Askable at askable
    dsimp only
    omega
  · have disjoint := fresh _ _ answer block there
    rwa [askable.request_eq] at disjoint

/-- Where a block has room, `malloc` is not asked. -/
theorem allocate_found {arena : SlArena} (h : Chain arena heap) {size buffer : Nat} {heap' : Heap}
    (found : takeFirst size heap = some (buffer, heap')) (malloc : Nat → Option Nat) :
    allocate malloc arena heap size = some (some buffer, arena.count size, heap') := by
  have search := @firstFit_eq size heap [] _ _ h.apart h.linked h.sized (Nat.le_refl _)
  rw [found] at search
  rw [allocate, show firstFit size heap.length heap arena.first = _ from search]
  simp

/-- **`sl_arena_allocate` goes through the blocks in their order.** -/
theorem allocate_eq {arena : SlArena} (h : Chain arena heap) {malloc : Nat → Option Nat} (fresh : Fresh malloc heap) {size : Nat}
    (askable : Askable arena size) : allocate malloc arena heap size = some (allocation malloc arena heap size) := by
  cases found : takeFirst size heap with
  | some pair =>
    rw [allocate_found h found, allocation, found]
  | none =>
    have search := @firstFit_eq size heap [] _ _ h.apart h.linked h.sized (Nat.le_refl _)
    simp only [List.nil_append, found] at search
    rw [allocate, allocation, search, found]
    cases answer : malloc (request arena size) with
    | none =>
      have created : createBlock malloc heap (blockSize arena size) = (none, heap) := by
        unfold createBlock
        rw [show malloc (wrap64 (headerSize + blockSize arena size)) = none from answer]
      simp [created]
    | some address =>
      obtain ⟨linked, grown⟩ := h.grow_fresh fresh askable answer
      let new : Block := { address, allocated := blockSize arena size }
      have created : createBlock malloc heap (blockSize arena size) = (some address, heap ++ [new]) := by
        unfold createBlock
        rw [show malloc (wrap64 (headerSize + blockSize arena size)) = some address from answer]
      have look := @allocateFromBlock_eq (relink address heap) [] new grown.apart (grown.sized new (by simp [new])) size
      have loaded : Heap.load (relink address heap ++ [new]) address = some new := grown.apart.load
      have counted : (if arena.first = none then
          { arena with
            first := some address, last := some address, blocks := wrap64 (arena.blocks + 1)
            allocated := wrap64 (arena.allocated + new.allocated) }
          else { arena with
            last := some address, blocks := wrap64 (arena.blocks + 1)
            allocated := wrap64 (arena.allocated + new.allocated) }) = arena.extend new := by
        cases first : arena.first <;> simp [SlArena.extend, first, new]
      simp only [Option.bind_eq_bind, Option.bind_some, ne_eq, not_true_eq_false, if_false, created]
      rw [show Heap.link (heap ++ [new]) arena.last address = some (relink address heap ++ [new]) from linked]
      simp only [Option.bind_some, loaded]
      rw [show allocateFromBlock (relink address heap ++ [new]) address size = _ from look]
      by_cases fits : size ≤ new.allocated
      · rw [if_pos (show size ≤ new.allocated - 0 from fits), if_pos fits]
        simp only [Option.bind_some, reduceCtorEq, if_false, counted, Option.pure_def]
        rfl
      · rw [if_neg (show ¬size ≤ new.allocated - 0 from fits), if_neg fits]
        simp only [Option.bind_some, if_true, counted, Option.pure_def]
        rfl

/-- Sizes that the arena can be asked for. Between the two, and above, the octets that are asked of
`malloc` wrap around and are fewer than the block is taken to have. -/
def Requestable (size : Nat) : Prop := size ≤ 2 ^ 62 ∨ size = 2 ^ 63

theorem blockSize_le {arena : SlArena} {size : Nat} (preallocate : arena.preallocate < 2 ^ 62) (requestable : Requestable size) :
    blockSize arena size ≤ 2 ^ 63 := by
  rw [blockSize, Nat.shiftRight_eq_div_pow, Nat.shiftLeft_eq]
  split
  · rcases requestable with small | rfl
    · rw [wrap64_of_lt (by omega)]
      omega
    · exact Nat.le_trans (by decide : wrap64 (2 ^ 63 * 2 ^ 1) ≤ 0) (Nat.zero_le _)
  · omega

/-- A new block has room for what it is created for. -/
theorem le_blockSize {arena : SlArena} {size : Nat} (small : size ≤ 2 ^ 62) : size ≤ blockSize arena size := by
  rw [blockSize, Nat.shiftRight_eq_div_pow, Nat.shiftLeft_eq]
  split
  · rw [wrap64_of_lt (by omega)]
    omega
  · omega

/-- **What `sl_arena_allocate` does**: it takes from a block that has room, or `malloc` fails, or it
adds a block to the chain and takes from that. -/
theorem allocate_cases {arena : SlArena} (h : Chained arena heap) {malloc : Nat → Option Nat} (fresh : Fresh malloc heap)
    {size : Nat} (requestable : Requestable size) :
    (∃ before block after, heap = before ++ block :: after ∧ size ≤ block.allocated - block.used ∧
      allocate malloc arena heap size = some (some block.free, arena.count size, before ++ block.take size :: after)) ∨
    (malloc (request arena size) = none ∧ allocate malloc arena heap size = some (none, arena, heap)) ∨
    ∃ new heap', malloc (request arena size) = some new.address ∧ new.storage = ⟨new.address, request arena size⟩ ∧
      new.allocated = blockSize arena size ∧ new.used = 0 ∧
      Relinked heap heap' ∧ Chained (arena.extend new) (heap' ++ [new]) ∧
      allocate malloc arena heap size =
        if size ≤ new.allocated then some (some new.free, (arena.extend new).count size, heap' ++ [new.take size])
        else some (none, arena.extend new, heap' ++ [new]) := by
  have bounded := blockSize_le h.preallocate requestable
  have askable : Askable arena size := by
    unfold Askable headerSize
    omega
  rw [allocate_eq h.chain fresh askable, allocation]
  rcases takeFirst_cases size heap with missed | ⟨before, block, after, split, room, found⟩
  · rw [missed]
    cases answer : malloc (request arena size) with
    | none => exact Or.inr (Or.inl ⟨rfl, rfl⟩)
    | some address =>
      obtain ⟨-, grown⟩ := h.chain.grow_fresh fresh askable answer
      refine Or.inr (Or.inr ⟨{ address, allocated := blockSize arena size }, relink address heap, rfl, ?_, rfl, rfl,
        relinked_relink address heap, grown.chained (forall_extend (forall_relink (fun _ _ => id) ?_) bounded) h.preallocate, ?_⟩)
      · rw [askable.request_eq]
        rfl
      · exact fun block there => (h.bounded block there).allocated
      · dsimp only
        split <;> rfl
  · rw [found]
    exact Or.inl ⟨before, block, after, split, room, rfl⟩

/-! ## Runs -/

/-- The arena, its blocks, and the regions that were returned since the last rewind. -/
structure State where
  arena : SlArena
  heap : Heap := []
  regions : List Region := []

/-- A run begins behind `sl_arena_init`. -/
def Start (preallocate : Nat) (s : State) : Prop := s = { arena := init preallocate }

/-- The regions behind a call of `sl_arena_allocate`. -/
def returned (size : Nat) (regions : List Region) : Option Nat → List Region
  | none => regions
  | some buffer => ⟨buffer, size⟩ :: regions

inductive Step : State → State → Prop
  | allocate (s : State) {malloc : Nat → Option Nat} (fresh : Fresh malloc s.heap) {size : Nat} (small : size < 2 ^ 62)
      {buffer : Option Nat} {arena : SlArena} {heap : Heap}
      (h : allocate malloc s.arena s.heap size = some (buffer, arena, heap)) :
      Step s ⟨arena, heap, returned size s.regions buffer⟩
  | rewind (s : State) {heap : Heap} (h : rewind s.arena s.heap = some heap) : Step s ⟨s.arena, heap, []⟩

/-- **The invariant**: every region is in the used part of a block, and no two overlap. -/
structure State.Sound (s : State) : Prop where
  chained : Chained s.arena s.heap
  inside : ∀ region ∈ s.regions, ∃ block ∈ s.heap, region.Within block.taken
  disjoint : s.regions.Pairwise Region.Disjoint

namespace State.Sound

variable {arena : SlArena} {regions : List Region}

/-- The region behind the used part of a block is free. -/
theorem take (h : State.Sound ⟨arena, before ++ block :: after, regions⟩) {size : Nat} (fits : size ≤ block.allocated - block.used) :
    State.Sound ⟨arena.count size, before ++ block.take size :: after, ⟨block.free, size⟩ :: regions⟩ := by
  have bounded := h.chained.bounded
  refine ⟨h.chained.take fits, ?_, List.pairwise_cons.mpr ⟨?_, h.disjoint⟩⟩
  · intro region there
    have here : block.take size ∈ before ++ block.take size :: after := List.mem_append_right _ List.mem_cons_self
    rcases List.mem_cons.mp there with rfl | there
    · refine ⟨block.take size, here, ?_⟩
      simp only [Region.Within, Block.taken, Block.take, Block.free]
      omega
    · obtain ⟨other, found, within⟩ := h.inside region there
      rcases List.mem_append.mp found with found | found
      · exact ⟨other, List.mem_append_left _ found, within⟩
      · rcases List.mem_cons.mp found with rfl | found
        · refine ⟨other.take size, here, within.trans ?_⟩
          simp only [Region.Within, Block.taken, Block.take]
          omega
        · exact ⟨other, List.mem_append_right _ (List.mem_cons_of_mem _ found), within⟩
  · intro region there
    obtain ⟨other, found, within⟩ := h.inside region there
    have used := bounded other found
    by_cases same : other = block
    · subst same
      simp only [Region.Within, Region.Disjoint, Block.taken, Block.free] at within ⊢
      omega
    · have elsewhere : other ∈ before ++ after := by
        rcases List.mem_append.mp found with found | found
        · exact List.mem_append_left _ found
        · exact List.mem_append_right _ ((List.mem_cons.mp found).resolve_left same)
      have own := (bounded block (List.mem_append_right _ List.mem_cons_self)).used
      have theirs := used.used
      refine (h.chained.apart.others other elsewhere).mono ?_ (within.trans ?_)
      · simp only [Region.Within, Block.storage, Block.free]
        omega
      · simp only [Region.Within, Block.storage, Block.taken]
        omega

/-- A block that was added changes nothing for the regions. -/
theorem extend {s : State} (h : s.Sound) {new : Block} {heap' : Heap} (kept : Relinked s.heap heap')
    (grown : Chained (s.arena.extend new) (heap' ++ [new])) : State.Sound ⟨s.arena.extend new, heap' ++ [new], s.regions⟩ := by
  refine ⟨grown, ?_, h.disjoint⟩
  intro region there
  obtain ⟨other, found, within⟩ := h.inside region there
  obtain ⟨other', found', same⟩ := kept.forth other found
  exact ⟨other', List.mem_append_left _ found', same ▸ within⟩

/-- **One call of `sl_arena_allocate`.** -/
theorem allocate {s : State} (h : s.Sound) {malloc : Nat → Option Nat} (fresh : Fresh malloc s.heap) {size : Nat}
    (requestable : Requestable size) :
    ∃ buffer arena heap, Arena.allocate malloc s.arena s.heap size = some (buffer, arena, heap) ∧
      State.Sound ⟨arena, heap, returned size s.regions buffer⟩ ∧
      (∀ pointer, buffer = some pointer →
        ∃ block ∈ heap, block.address + headerSize ≤ pointer ∧ pointer + size = block.free) ∧
      (∀ block ∈ heap, (∃ old ∈ s.heap, block.storage = old.storage) ∨
        malloc (request s.arena size) = some block.address ∧ block.storage.size = request s.arena size) ∧
      (buffer = none → size ≤ 2 ^ 62 → malloc (request s.arena size) = none ∧ arena = s.arena ∧ heap = s.heap) := by
  rcases allocate_cases h.chained fresh requestable with
    ⟨before, block, after, split, fits, result⟩ | ⟨failed, result⟩ | ⟨new, heap', made, storage, allocated, empty, kept, grown, result⟩
  · refine ⟨_, _, _, result, ?_, ?_, ?_, fun none => absurd none (Option.some_ne_none _)⟩
    · refine @take _ _ _ s.arena s.regions ?_ _ fits
      exact ⟨split ▸ h.chained, split ▸ h.inside, h.disjoint⟩
    · intro pointer here
      cases here
      refine ⟨block.take size, List.mem_append_right _ List.mem_cons_self, Nat.le_add_right _ _, ?_⟩
      simp only [Block.free, Block.take]
      omega
    · have kept : ∀ other ∈ before ++ block :: after, ∃ old ∈ s.heap, other.storage = old.storage :=
        fun other there => ⟨other, split ▸ there, rfl⟩
      have kept' : ∀ other ∈ before ++ block.take size :: after, ∃ old ∈ s.heap, other.storage = old.storage := forall_replace kept id
      exact fun other there => Or.inl (kept' other there)
  · exact ⟨_, _, _, result, h, fun _ refused => absurd refused.symm (Option.some_ne_none _), fun block there => Or.inl ⟨block, there, rfl⟩,
      fun _ _ => ⟨failed, rfl, rfl⟩⟩
  · have storages : ∀ block ∈ heap' ++ [new], (∃ old ∈ s.heap, block.storage = old.storage) ∨
        malloc (request s.arena size) = some block.address ∧ block.storage.size = request s.arena size :=
      forall_extend (fun block there => Or.inl (kept.back block there)) (Or.inr ⟨made, congrArg Region.size storage⟩)
    by_cases fits : size ≤ new.allocated
    · rw [if_pos fits] at result
      refine ⟨_, _, _, result, ?_, ?_, ?_, fun none => absurd none (Option.some_ne_none _)⟩
      · exact @take _ _ _ (s.arena.extend new) s.regions (h.extend kept grown) _ (by omega)
      · intro pointer here
        cases here
        refine ⟨new.take size, List.mem_append_right _ (List.mem_singleton.mpr rfl), Nat.le_add_right _ _, ?_⟩
        simp only [Block.free, Block.take]
        omega
      · exact forall_replace storages id
    · rw [if_neg fits] at result
      refine ⟨_, _, _, result, h.extend kept grown, fun _ refused => absurd refused.symm (Option.some_ne_none _), storages, fun _ small => ?_⟩
      exact absurd (allocated ▸ le_blockSize small) fits

theorem rewind {s : State} (h : s.Sound) :
    ∃ heap, Arena.rewind s.arena s.heap = some heap ∧ State.Sound ⟨s.arena, heap, []⟩ := by
  have result := @rewindFrom_eq s.heap [] _ _ h.chained.apart h.chained.linked (Nat.le_refl _)
  refine ⟨_, result, h.chained.rewind, fun region none => absurd none List.not_mem_nil, List.Pairwise.nil⟩

theorem step {s s' : State} (h : s.Sound) (step : Step s s') : s'.Sound := by
  cases step with
  | allocate fresh small result =>
    obtain ⟨buffer, arena, heap, returns, sound, -⟩ := h.allocate fresh (Or.inl (Nat.le_of_lt small))
    cases returns.symm.trans result
    exact sound
  | rewind result =>
    obtain ⟨heap, returns, sound⟩ := h.rewind
    cases returns.symm.trans result
    exact sound

end State.Sound

theorem sound_of_reached {preallocate : Nat} (small : preallocate < 2 ^ 62) {s : State} (h : Reached (Start preallocate) Step s) :
    s.Sound := by
  refine h.invariant ?_ fun s s' sound step => sound.step step
  intro s first
  subst first
  exact ⟨⟨rfl, rfl, List.Pairwise.nil, fun block none => absurd none List.not_mem_nil, small⟩,
    fun region none => absurd none List.not_mem_nil, List.Pairwise.nil⟩

/-- **Allocations never overlap.** In every state of every run, the chain from
`first` is all the blocks and ends in `last`, `used` never exceeds `allocated`,
and the regions returned since the last rewind lie in the payloads of blocks,
apart from each other. A further call of `sl_arena_allocate` comes to its end;
it returns `NULL` only if `malloc` does, and has then changed nothing. So does a
call of `sl_arena_rewind`. -/
theorem allocations_disjoint {preallocate : Nat} (small : preallocate < 2 ^ 62) {s : State}
    (h : Reached (Start preallocate) Step s) :
    Linked s.arena.first s.heap ∧ s.arena.last = s.heap.getLast?.map Block.address ∧
    (∀ block ∈ s.heap, block.used ≤ block.allocated) ∧
    (s.heap.Pairwise fun block other => block.storage.Disjoint other.storage) ∧
    (∀ region ∈ s.regions, ∃ block ∈ s.heap, region.Within block.payload) ∧
    s.regions.Pairwise Region.Disjoint ∧
    (∀ malloc size, Fresh malloc s.heap → size < 2 ^ 62 →
      ∃ buffer arena heap, allocate malloc s.arena s.heap size = some (buffer, arena, heap) ∧
        (∀ pointer, buffer = some pointer →
          (∃ block ∈ heap, (⟨pointer, size⟩ : Region).Within block.payload) ∧
          ∀ region ∈ s.regions, (⟨pointer, size⟩ : Region).Disjoint region) ∧
        (buffer = none → malloc (request s.arena size) = none ∧ arena = s.arena ∧ heap = s.heap)) ∧
    ∃ heap, rewind s.arena s.heap = some heap := by
  have payload : ∀ {s : State}, s.Sound → ∀ region ∈ s.regions, ∃ block ∈ s.heap, region.Within block.payload := by
    intro s sound region there
    obtain ⟨block, found, within⟩ := sound.inside region there
    have used := (sound.chained.bounded block found).used
    refine ⟨block, found, within.trans ⟨Nat.le_refl _, ?_⟩⟩
    simp only [Block.taken, Block.payload]
    omega
  have sound := sound_of_reached small h
  refine ⟨sound.chained.linked, sound.chained.last, fun block there => (sound.chained.bounded block there).used,
    sound.chained.apart, payload sound, sound.disjoint, fun malloc size fresh small => ?_, ?_⟩
  · obtain ⟨buffer, arena, heap, result, sound', -, -, failed⟩ := sound.allocate fresh (Or.inl (Nat.le_of_lt small))
    refine ⟨buffer, arena, heap, result, fun pointer here => ?_, fun refused => failed refused (Nat.le_of_lt small)⟩
    subst here
    exact ⟨payload sound' _ List.mem_cons_self, (List.pairwise_cons.mp sound'.disjoint).1⟩
  · obtain ⟨heap, result, -⟩ := sound.rewind
    exact ⟨heap, result⟩

/-- An arena of 4096 octets a block, behind its first allocation. -/
def oneBlock : State where
  arena := { init 4096 with first := some 64, last := some 64, allocations := 1, allocated := 4096, blocks := 1, used := 100 }
  heap := [{ address := 64, allocated := 4096, used := 100 }]
  regions := [⟨88, 100⟩]

theorem reached_oneBlock : Reached (Start 4096) Step oneBlock := by
  have start : Reached (Start 4096) Step { arena := init 4096 } := .first rfl
  have fresh : Fresh (fun _ => some 64) [] := fun size address _ block none => absurd none List.not_mem_nil
  have result : allocate (fun _ => some 64) (init 4096) [] 100 = some (some 88, oneBlock.arena, oneBlock.heap) := by decide
  have step : Step { arena := init 4096 } ⟨oneBlock.arena, oneBlock.heap, [⟨88, 100⟩]⟩ :=
    @Step.allocate { arena := init 4096 } _ fresh 100 (by decide) (some 88) _ _ result
  exact .step start step

/-- The block is rewound and used again. -/
def oneRegion : State where
  arena := { oneBlock.arena with allocations := 2, used := 150 }
  heap := [{ address := 64, allocated := 4096, used := 50 }]
  regions := [⟨88, 50⟩]

/-- A region that needs another block, `used` octets of the first being in use. -/
def twoRegions (used : Nat) : State where
  arena := { oneBlock.arena with last := some 10000, allocations := 3, allocated := 12276, blocks := 2, used := 4190 + used }
  heap := [{ address := 64, next := some 10000, allocated := 4096, used }, { address := 10000, allocated := 8180, used := 4090 }]
  regions := [⟨10024, 4090⟩, ⟨88, 50⟩]

/-- A region in the first block again. -/
def threeRegions : State where
  arena := { (twoRegions 110).arena with allocations := 4 }
  heap := (twoRegions 110).heap
  regions := [⟨138, 60⟩, ⟨10024, 4090⟩, ⟨88, 50⟩]

theorem reached_threeRegions : Reached (Start 4096) Step threeRegions := by
  have silent : ∀ heap, Fresh (fun _ => none) heap := fun _ _ _ answer => nomatch answer
  have behind : Fresh (fun _ => some 10000) oneRegion.heap := by
    intro size address answer block there
    cases answer
    rw [List.mem_singleton.mp there]
    exact Or.inl (show 64 + (24 + 4096) ≤ 10000 by decide)
  have rewound : Step oneBlock ⟨oneBlock.arena, oneBlock.heap.map Block.clear, []⟩ := .rewind oneBlock (by decide)
  have first : Step ⟨oneBlock.arena, oneBlock.heap.map Block.clear, []⟩ oneRegion :=
    @Step.allocate ⟨oneBlock.arena, oneBlock.heap.map Block.clear, []⟩ _ (silent _) 50 (by decide) (some 88) _ _ (by decide)
  have second : Step oneRegion (twoRegions 50) := @Step.allocate oneRegion _ behind 4090 (by decide) (some 10024) _ _ (by decide)
  have third : Step (twoRegions 50) threeRegions := @Step.allocate (twoRegions 50) _ (silent _) 60 (by decide) (some 138) _ _ (by decide)
  exact .step (.step (.step (.step reached_oneBlock rewound) first) second) third

theorem allocations_disjoint_three_regions :
    Linked threeRegions.arena.first threeRegions.heap ∧ threeRegions.arena.last = threeRegions.heap.getLast?.map Block.address ∧
    (∀ block ∈ threeRegions.heap, block.used ≤ block.allocated) ∧
    (threeRegions.heap.Pairwise fun block other => block.storage.Disjoint other.storage) ∧
    (∀ region ∈ threeRegions.regions, ∃ block ∈ threeRegions.heap, region.Within block.payload) ∧
    threeRegions.regions.Pairwise Region.Disjoint ∧
    (∀ malloc size, Fresh malloc threeRegions.heap → size < 2 ^ 62 →
      ∃ buffer arena heap, allocate malloc threeRegions.arena threeRegions.heap size = some (buffer, arena, heap) ∧
        (∀ pointer, buffer = some pointer →
          (∃ block ∈ heap, (⟨pointer, size⟩ : Region).Within block.payload) ∧
          ∀ region ∈ threeRegions.regions, (⟨pointer, size⟩ : Region).Disjoint region) ∧
        (buffer = none → malloc (request threeRegions.arena size) = none ∧ arena = threeRegions.arena ∧ heap = threeRegions.heap)) ∧
    ∃ heap, rewind threeRegions.arena threeRegions.heap = some heap :=
  allocations_disjoint (by decide) reached_threeRegions

end Cpptrw.Arena
