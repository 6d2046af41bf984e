import Cpptrw.Arena.Blocks

/-!
# The totals that the arena keeps of its blocks

`arena->used`, `arena->allocated` and `arena->blocks` repeat what the blocks
say. Every call keeps the last two. The first is not written by
`sl_arena_rewind`, and so it is the sum as long as an arena is only rewound
when nothing in it is used.
-/

namespace Cpptrw.Arena

open Lib

/-- `free`, of `NULL` or of a block. -/
def Heap.free (heap : Heap) : Option Nat → Option Heap
  | none => some heap
  | some pointer => do
    let block ← heap.load pointer
    return heap.filter fun other => other.address ≠ block.address

/-- The loop of `sl_arena_destroy`, from a pointer on; it leaves the last block to be freed behind it. -/
def destroyFrom : Nat → Heap → Option Nat → Option Nat → Option (Option Nat × Heap)
  | _, heap, previous, none => some (previous, heap)
  | 0, _, _, some _ => none
  | fuel + 1, heap, previous, some pointer => do
    let heap ← if previous ≠ none then heap.free previous else some heap
    let block ← heap.load pointer
    destroyFrom fuel heap (some pointer) block.next

/-- `sl_arena_destroy`. -/
def destroy (arena : SlArena) (heap : Heap) : Option (SlArena × Heap) := do
  let (previous, heap) ← destroyFrom heap.length heap none arena.first
  let heap ← heap.free previous
  return (init arena.preallocate, heap)

variable {arena : SlArena} {heap before after : Heap} {block : Block}

theorem Apart.free (h : Apart (block :: heap)) : Heap.free (block :: heap) (some block.address) = some heap := by
  have others : heap.filter (fun other => other.address ≠ block.address) = heap := by
    rw [List.filter_eq_self]
    intro other there
    simpa using @Apart.address_ne [] heap block h other there
  have loaded : Heap.load (block :: heap) block.address = some block := @Apart.load [] heap block h
  simp only [Heap.free, loaded, Option.bind_eq_bind, Option.bind_some, Option.pure_def]
  rw [List.filter_cons_of_neg (by simp), others]

/-- Behind the first block, every pass frees the block before. -/
theorem free_destroyFrom : ∀ {rest : List Block} {block : Block} {fuel : Nat} {pointer : Option Nat},
    Apart (block :: rest) → Linked pointer rest → rest.length ≤ fuel →
      (destroyFrom fuel (block :: rest) (some block.address) pointer).bind (fun found => found.2.free found.1) = some []
  | [], block, fuel, pointer, apart, linked, _ => by
    rw [show pointer = none from linked]
    cases fuel <;> exact apart.free
  | next :: rest, block, 0, _, _, _, enough => absurd enough (by simp)
  | next :: rest, block, fuel + 1, pointer, apart, linked, enough => by
    obtain ⟨here, linked⟩ := linked
    subst here
    have onward : Apart (next :: rest) := (List.pairwise_cons.mp apart).2
    have loaded : Heap.load (next :: rest) next.address = some next := @Apart.load [] rest next onward
    have ih := @free_destroyFrom rest next fuel next.next onward linked (by simpa using enough)
    rw [destroyFrom]
    simpa [apart.free, loaded] using ih

/-- `sl_arena_destroy` frees every block once and leaves an arena as `sl_arena_init` does. -/
theorem destroy_eq (h : Chain arena heap) : destroy arena heap = some (init arena.preallocate, []) := by
  have freed : (destroyFrom heap.length heap none arena.first).bind (fun found => found.2.free found.1) = some [] := by
    cases heap with
    | nil =>
      rw [show arena.first = none from h.linked]
      rfl
    | cons block rest =>
      obtain ⟨first, linked⟩ := h.linked
      have loaded : Heap.load (block :: rest) block.address = some block := @Apart.load [] rest block h.apart
      have freed := free_destroyFrom h.apart linked (Nat.le_refl _)
      rw [first, List.length_cons, destroyFrom]
      simpa [loaded] using freed
  obtain ⟨found, run, freed⟩ := Option.bind_eq_some_iff.mp freed
  simp only [destroy, run, freed, Option.bind_eq_bind, Option.bind_some, Option.pure_def]

/-! ## Calls -/

inductive Call where
  | init (preallocate : Nat)
  | allocate (malloc : Nat → Option Nat) (size : Nat)
  | rewind
  | destroy

/-- The arena and its blocks behind a call. What an arena had before `sl_arena_init` is lost. -/
def Call.perform (arena : SlArena) (heap : Heap) : Call → Option (SlArena × Heap)
  | .init preallocate => some (Arena.init preallocate, [])
  | .allocate malloc size => (Arena.allocate malloc arena heap size).map Prod.snd
  | .rewind => (Arena.rewind arena heap).map fun heap => (arena, heap)
  | .destroy => Arena.destroy arena heap

/-- `malloc` returns storage that ends within the address space. -/
def Placing (malloc : Nat → Option Nat) : Prop := ∀ size address, malloc size = some address → address + size ≤ 2 ^ 64

/-- What is asked of the arguments and of `malloc`. A block of the size that the arena is initialised
with has a size that is a `size_t`. -/
def Call.Proper (heap : Heap) : Call → Prop
  | .init preallocate => headerSize + preallocate < 2 ^ 64
  | .allocate malloc size => Fresh malloc heap ∧ Placing malloc ∧ size < 2 ^ 62
  | .rewind => True
  | .destroy => True

/-- Only what is not used is rewound. -/
def Call.Clean (heap : Heap) : Call → Prop
  | .rewind => ∀ block ∈ heap, block.used = 0
  | _ => True

/-- A run begins behind `sl_arena_init`. -/
def Initialised (s : SlArena × Heap) : Prop := ∃ preallocate, headerSize + preallocate < 2 ^ 64 ∧ s = (init preallocate, [])

/-- One call, of the allowed ones. -/
def Calls (allowed : Heap → Call → Prop) (s s' : SlArena × Heap) : Prop :=
  ∃ call : Call, call.Proper s.2 ∧ allowed s.2 call ∧ call.perform s.1 s.2 = some s'

/-! ## The totals -/

/-- A sum over the blocks. -/
def total (f : Block → Nat) (heap : Heap) : Nat := (heap.map f).sum

@[simp] theorem total_append (f : Block → Nat) (heap heap' : Heap) : total f (heap ++ heap') = total f heap + total f heap' := by
  simp [total]

@[simp] theorem total_cons (f : Block → Nat) (block : Block) (heap : Heap) : total f (block :: heap) = f block + total f heap := by
  simp [total]

@[simp] theorem total_nil (f : Block → Nat) : total f [] = 0 := rfl

theorem total_relink {f : Block → Nat} (blind : ∀ block next, f { block with next } = f block) (pointer : Nat) (heap : Heap) :
    total f (relink pointer heap) = total f heap := by
  rw [total, map_relink blind, total]

@[simp] theorem length_relink (pointer : Nat) (heap : Heap) : (relink pointer heap).length = heap.length := by
  simpa using congrArg List.length (map_relink (f := fun _ => ()) (fun _ _ => rfl) pointer heap)

theorem total_le {f g : Block → Nat} (h : ∀ block ∈ heap, f block ≤ g block) : total f heap ≤ total g heap := by
  induction heap with
  | nil => simp
  | cons block rest ih =>
    rw [total_cons, total_cons]
    exact Nat.add_le_add (h block List.mem_cons_self) (ih fun other there => h other (List.mem_cons_of_mem _ there))

theorem total_eq_zero {f : Block → Nat} : total f heap = 0 ↔ ∀ block ∈ heap, f block = 0 := by
  induction heap with
  | nil => simp
  | cons block rest ih => simp [ih]

/-- What the arena says of its blocks. -/
structure Counted (arena : SlArena) (heap : Heap) : Prop where
  allocated : arena.allocated = total Block.allocated heap
  blocks : arena.blocks = heap.length

/-- **The totals are exact.** -/
structure Accounted (arena : SlArena) (heap : Heap) : Prop extends Counted arena heap where
  used : arena.used = total Block.used heap

/-- The blocks are apart from each other and within the address space. -/
structure Kept (arena : SlArena) (heap : Heap) : Prop where
  chain : Chain arena heap
  placed : ∀ block ∈ heap, block.address + (headerSize + block.allocated) ≤ 2 ^ 64
  preallocate : headerSize + arena.preallocate < 2 ^ 64

theorem kept_init {preallocate : Nat} (small : headerSize + preallocate < 2 ^ 64) : Kept (init preallocate) [] :=
  ⟨⟨rfl, rfl, .nil, by simp⟩, by simp, small⟩

theorem accounted_init (preallocate : Nat) : Accounted (init preallocate) [] := ⟨⟨rfl, rfl⟩, rfl⟩

namespace Kept

/-- No total wraps around. -/
theorem totals_lt (h : Kept arena heap) : total Block.allocated heap < 2 ^ 64 ∧ heap.length < 2 ^ 64 := by
  have storage : ∀ heap : Heap, ((heap.map Block.storage).map Region.size).sum = headerSize * heap.length + total Block.allocated heap := by
    intro heap
    induction heap with
    | nil => rfl
    | cons block rest ih =>
      simp only [List.map_cons, List.sum_cons, ih, List.length_cons, total_cons, Block.storage, headerSize]
      omega
  have fits : ((heap.map Block.storage).map Region.size).sum ≤ 2 ^ 64 := by
    apply Region.sum_size_le (List.pairwise_map.mpr h.chain.apart)
    intro region there
    obtain ⟨block, here, rfl⟩ := List.mem_map.mp there
    exact h.placed block here
  rw [storage, headerSize] at fits
  cases heap with
  | nil => simp
  | cons block rest =>
    rw [List.length_cons] at *
    omega

theorem total_used_le (h : Kept arena heap) : total Block.used heap ≤ total Block.allocated heap :=
  total_le fun block there => (h.chain.sized block there).used

/-- An allocation from a block that has room. -/
theorem take (h : Kept arena (before ++ block :: after)) {size : Nat} (fits : size ≤ block.allocated - block.used) :
    Kept (arena.count size) (before ++ block.take size :: after) := by
  exact ⟨h.chain.take fits, forall_replace h.placed id, h.preallocate⟩

theorem askable (h : Kept arena heap) {size : Nat} (small : size < 2 ^ 62) : Askable arena size := by
  have preallocate := h.preallocate
  unfold Askable
  rw [blockSize, Nat.shiftLeft_eq]
  split
  · rw [wrap64_of_lt (by omega), headerSize]
    omega
  · exact preallocate

/-- A block that `malloc` returned. -/
theorem extend (h : Kept arena heap) {malloc : Nat → Option Nat} (fresh : Fresh malloc heap) (placing : Placing malloc) {size : Nat}
    (small : size < 2 ^ 62) {address : Nat} (answer : malloc (request arena size) = some address) :
    Kept (arena.extend { address, allocated := blockSize arena size })
      (relink address heap ++ [{ address, allocated := blockSize arena size }]) := by
  have askable := h.askable small
  have placed := placing _ _ answer
  rw [askable.request_eq] at placed
  exact ⟨(h.chain.grow_fresh fresh askable answer).2, forall_extend (forall_relink (fun _ _ => id) h.placed) placed, h.preallocate⟩

theorem rewind (h : Kept arena heap) : Kept arena (heap.map Block.clear) := by
  refine ⟨h.chain.rewind, fun block there => ?_, h.preallocate⟩
  obtain ⟨block', there', rfl⟩ := List.mem_map.mp there
  exact h.placed block' there'

end Kept

/-! ## What each call does to the totals -/

theorem used_take (kept : Kept arena (before ++ block :: after)) {size : Nat} (fits : size ≤ block.allocated - block.used)
    (h : arena.used = total Block.used (before ++ block :: after)) :
    (arena.count size).used = total Block.used (before ++ block.take size :: after) := by
  have kept' := kept.take fits
  have more : total Block.used (before ++ block.take size :: after) = total Block.used (before ++ block :: after) + size := by
    simp only [total_append, total_cons, Block.take]
    omega
  have small := Nat.lt_of_le_of_lt kept'.total_used_le kept'.totals_lt.1
  rw [more] at small ⊢
  rw [SlArena.count, h, wrap64_of_lt small]

theorem counted_take {size : Nat} (h : Counted arena (before ++ block :: after)) :
    Counted (arena.count size) (before ++ block.take size :: after) := by
  constructor
  · simpa [SlArena.count, Block.take] using h.allocated
  · simpa [SlArena.count] using h.blocks

theorem counted_extend {new : Block} (kept : Kept (arena.extend new) (relink new.address heap ++ [new])) (h : Counted arena heap) :
    Counted (arena.extend new) (relink new.address heap ++ [new]) := by
  have more : total Block.allocated (relink new.address heap ++ [new]) = total Block.allocated heap + new.allocated := by
    simp [total_relink]
  obtain ⟨small, few⟩ := kept.totals_lt
  rw [more] at small
  rw [List.length_append, length_relink, List.length_singleton] at few
  constructor
  · rw [SlArena.extend, h.allocated, wrap64_of_lt small, more]
  · rw [SlArena.extend, h.blocks, wrap64_of_lt few, List.length_append, length_relink, List.length_singleton]

/-- **One call of `sl_arena_allocate`.** -/
theorem Kept.allocate (h : Kept arena heap) {malloc : Nat → Option Nat} (fresh : Fresh malloc heap) (placing : Placing malloc) {size : Nat}
    (small : size < 2 ^ 62) :
    ∃ buffer arena' heap', Arena.allocate malloc arena heap size = some (buffer, arena', heap') ∧ Kept arena' heap' ∧
      (Counted arena heap → Counted arena' heap') ∧ (Accounted arena heap → Accounted arena' heap') := by
  rw [allocate_eq h.chain fresh (h.askable small), allocation]
  rcases takeFirst_cases size heap with missed | ⟨before, block, after, rfl, room, found⟩
  · rw [missed]
    cases answer : malloc (request arena size) with
    | none => exact ⟨_, _, _, rfl, h, id, id⟩
    | some address =>
      dsimp only
      let new : Block := { address, allocated := blockSize arena size }
      have kept : Kept (arena.extend new) (relink address heap ++ [new]) := h.extend fresh placing small answer
      have fits : size ≤ new.allocated := le_blockSize (Nat.le_of_lt small)
      have counted : Counted arena heap → Counted ((arena.extend new).count size) (relink address heap ++ [new.take size]) :=
        fun counted => counted_take (counted_extend kept counted)
      rw [if_pos fits]
      refine ⟨_, _, _, rfl, kept.take fits, counted, fun accounted => ⟨counted accounted.toCounted, ?_⟩⟩
      apply used_take kept fits
      simpa [SlArena.extend, total_relink, new] using accounted.used
  · rw [found]
    exact ⟨_, _, _, rfl, h.take room, counted_take, fun accounted => ⟨counted_take accounted.toCounted, used_take h room accounted.used⟩⟩

theorem counted_rewind (h : Counted arena heap) : Counted arena (heap.map Block.clear) := by
  constructor
  · simpa [total, Function.comp_def, Block.clear] using h.allocated
  · simpa using h.blocks

/-- Rewinding leaves `arena->used` as it is. -/
theorem accounted_rewind_iff (h : Accounted arena heap) : Accounted arena (heap.map Block.clear) ↔ ∀ block ∈ heap, block.used = 0 := by
  have none : total Block.used (heap.map Block.clear) = 0 := by
    simp [total, Function.comp_def, Block.clear]
  rw [← total_eq_zero, ← h.used]
  constructor
  · intro rewound
    rw [rewound.used, none]
  · intro zero
    exact ⟨counted_rewind h.toCounted, zero.trans none.symm⟩

/-! ## Runs -/

/-- **One call** comes to its end. The blocks and their sizes stay counted, and so does what is used,
unless something that is used is rewound. -/
theorem Kept.perform (h : Kept arena heap) (call : Call) (proper : call.Proper heap) :
    ∃ arena' heap', call.perform arena heap = some (arena', heap') ∧ Kept arena' heap' ∧
      (Counted arena heap → Counted arena' heap') ∧ (Accounted arena heap → (Accounted arena' heap' ↔ call.Clean heap)) := by
  cases call with
  | init preallocate =>
    have accounted := accounted_init preallocate
    exact ⟨_, _, rfl, kept_init proper, fun _ => accounted.toCounted, fun _ => iff_of_true accounted trivial⟩
  | allocate malloc size =>
    obtain ⟨fresh, placing, small⟩ := proper
    obtain ⟨buffer, arena', heap', result, kept, counted, accounted⟩ := h.allocate fresh placing small
    exact ⟨arena', heap', by rw [Call.perform, result]; rfl, kept, counted, fun before => iff_of_true (accounted before) trivial⟩
  | rewind =>
    have result : Arena.rewind arena heap = some (heap.map Block.clear) :=
      @rewindFrom_eq heap [] _ _ h.chain.apart h.chain.linked (Nat.le_refl _)
    exact ⟨arena, _, by rw [Call.perform, result]; rfl, h.rewind, counted_rewind, accounted_rewind_iff⟩
  | destroy =>
    have accounted := accounted_init arena.preallocate
    exact ⟨_, _, destroy_eq h.chain, kept_init h.preallocate, fun _ => accounted.toCounted, fun _ => iff_of_true accounted trivial⟩

variable {allowed : Heap → Call → Prop} {s : SlArena × Heap}

/-- In every run the blocks and their sizes are counted, whatever is rewound. -/
theorem counted_of_reached (h : Reached Initialised (Calls allowed) s) : Kept s.1 s.2 ∧ Counted s.1 s.2 := by
  apply h.invariant
  · rintro s ⟨preallocate, small, rfl⟩
    exact ⟨kept_init small, (accounted_init preallocate).toCounted⟩
  · rintro s s' ⟨kept, counted⟩ ⟨call, proper, -, performed⟩
    obtain ⟨arena', heap', result, kept', counted', -⟩ := kept.perform call proper
    cases result.symm.trans performed
    exact ⟨kept', counted' counted⟩

/-- **The totals are exact as long as only what is not used is rewound.** In every state of a run of
such calls they are the sums over the blocks; and every further call comes to its end, with exact
totals if and only if it is such a call. -/
theorem accounting_exact_iff (h : Reached Initialised (Calls fun heap call => call.Clean heap) s) :
    Accounted s.1 s.2 ∧ ∀ call : Call, call.Proper s.2 →
      ∃ s', call.perform s.1 s.2 = some s' ∧ (Accounted s'.1 s'.2 ↔ call.Clean s.2) := by
  have accounted : Accounted s.1 s.2 := by
    have both : Kept s.1 s.2 ∧ Accounted s.1 s.2 := by
      apply h.invariant
      · rintro s ⟨preallocate, small, rfl⟩
        exact ⟨kept_init small, accounted_init preallocate⟩
      · rintro s s' ⟨kept, accounted⟩ ⟨call, proper, clean, performed⟩
        obtain ⟨arena', heap', result, kept', -, exact_⟩ := kept.perform call proper
        cases result.symm.trans performed
        exact ⟨kept', (exact_ accounted).mpr clean⟩
    exact both.2
  refine ⟨accounted, fun call proper => ?_⟩
  obtain ⟨arena', heap', result, -, -, exact_⟩ := (counted_of_reached h).1.perform call proper
  exact ⟨(arena', heap'), result, exact_ accounted⟩

/-- A `malloc` that has one place. -/
def placedAt (address size : Nat) : Option Nat := if size ≤ 2 ^ 20 then some address else none

theorem proper_placedAt {address size : Nat} (behind : ∀ block ∈ heap, block.storage.start + block.storage.size ≤ address)
    (low : address ≤ 2 ^ 20) (small : size < 2 ^ 62) : (Call.allocate (placedAt address) size).Proper heap := by
  refine ⟨fun size place answer block there => ?_, fun size place answer => ?_, small⟩
  · obtain ⟨-, same⟩ := Option.ite_none_right_eq_some.mp answer
    rw [← Option.some.inj same]
    exact Or.inl (behind block there)
  · obtain ⟨fits, same⟩ := Option.ite_none_right_eq_some.mp answer
    rw [← Option.some.inj same]
    omega

theorem reached_allocated : Reached Initialised (Calls fun heap call => call.Clean heap) (oneBlock.arena, oneBlock.heap) :=
  .step (.first ⟨4096, by decide, rfl⟩) ⟨.allocate (placedAt 64) 100, proper_placedAt (by simp) (by decide) (by decide), trivial, by decide⟩

theorem accounting_exact_one_block :
    Accounted oneBlock.arena oneBlock.heap ∧ ∀ call : Call, call.Proper oneBlock.heap →
      ∃ s', call.perform oneBlock.arena oneBlock.heap = some s' ∧ (Accounted s'.1 s'.2 ↔ call.Clean oneBlock.heap) :=
  accounting_exact_iff reached_allocated

/-- An allocation of 100 octets that is rewound: `arena->used` still says 100, and no block says so. -/
theorem used_behind_rewind : ¬∀ s, Reached Initialised (Calls fun _ _ => True) s → Accounted s.1 s.2 := by
  intro exact_
  have allocated : Reached Initialised (Calls fun _ _ => True) (oneBlock.arena, oneBlock.heap) :=
    reached_allocated.mono fun _ _ ⟨call, proper, _, performed⟩ => ⟨call, proper, trivial, performed⟩
  have rewound : Reached Initialised (Calls fun _ _ => True) (oneBlock.arena, oneBlock.heap.map Block.clear) :=
    .step allocated ⟨.rewind, trivial, trivial, by decide⟩
  exact absurd (exact_ _ rewound).used (by decide)

end Cpptrw.Arena
