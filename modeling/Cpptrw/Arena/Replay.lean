import Cpptrw.Arena.Accounting

/-!
# The same allocations after a rewind

When blocks that are not used are asked for a sequence of sizes, each size is
taken from the first block with room, and blocks are added behind the others.
After a rewind all of them are there from the start. The search for room does
not get to a block before the time at which it was added, for then the blocks
in front of it are as full as they were, and had no room. That a connection
asks for the same sizes when it is sent the same request is in
`Leftover.Repeated`.
-/

namespace Cpptrw.Arena

open Lib

/-- A size, and what `malloc` would answer at that time. -/
abbrev Demand := (Nat → Option Nat) × Nat

/-- Calls of `sl_arena_allocate` that all return a buffer. -/
def allocateAll : List Demand → SlArena → Heap → Option (List Nat × SlArena × Heap)
  | [], arena, heap => some ([], arena, heap)
  | (malloc, size) :: demands, arena, heap => do
    let (buffer, arena, heap) ← allocate malloc arena heap size
    let buffer ← buffer
    let (buffers, arena, heap) ← allocateAll demands arena heap
    return (buffer :: buffers, arena, heap)

/-- What is asked of the sizes and of each `malloc`. -/
def Trusted : List Demand → SlArena → Heap → Prop
  | [], _, _ => True
  | (malloc, size) :: demands, arena, heap => (Call.allocate malloc size).Proper heap ∧
      ∀ buffer arena' heap', allocate malloc arena heap size = some (buffer, arena', heap') → Trusted demands arena' heap'

/-- The sizes of the demands. -/
def sizes (demands : List Demand) : List Nat := demands.map Prod.snd

variable {arena arena' : SlArena} {heap heap' later : Heap} {size buffer : Nat}

/-! ## The search for room -/

/-- A block without what it leads on to. -/
def Block.body (block : Block) : Block := { block with next := none }

/-- The search does not ask for `next`. -/
theorem takeFirst_body (size : Nat) (heap : Heap) :
    takeFirst size (heap.map Block.body) = (takeFirst size heap).map fun found => (found.1, found.2.map Block.body) := by
  induction heap with
  | nil => rfl
  | cons block rest ih =>
    simp only [List.map_cons, takeFirst, ih]
    by_cases fits : size ≤ block.allocated - block.used <;> simp [Block.body, Block.take, Block.free, fits, Function.comp_def]

/-- Blocks behind one that has room make no difference. -/
theorem takeFirst_append (found : takeFirst size heap = some (buffer, heap')) (later : Heap) :
    takeFirst size (heap ++ later) = some (buffer, heap' ++ later) := by
  induction heap generalizing heap' with
  | nil => simp [takeFirst] at found
  | cons block rest ih =>
    simp only [List.cons_append, takeFirst] at found ⊢
    by_cases fits : size ≤ block.allocated - block.used
    · simp only [fits, if_true, Option.some.injEq, Prod.mk.injEq] at found ⊢
      obtain ⟨rfl, rfl⟩ := found
      simp
    · simp only [fits, if_false, Option.map_eq_some_iff, Prod.mk.injEq] at found ⊢
      obtain ⟨pair, found, rfl, rfl⟩ := found
      exact ⟨_, ih found, by simp⟩

/-- Where no block has room, the search goes on behind them. -/
theorem takeFirst_behind (missed : takeFirst size heap = none) (later : Heap) :
    takeFirst size (heap ++ later) = (takeFirst size later).map fun found => (found.1, heap ++ found.2) := by
  induction heap with
  | nil => simp
  | cons block rest ih =>
    simp only [List.cons_append, takeFirst] at missed ⊢
    by_cases fits : size ≤ block.allocated - block.used
    · simp [fits] at missed
    · simp only [fits, if_false, Option.map_eq_none_iff] at missed ⊢
      simp [ih missed, Function.comp_def]

/-- The search in blocks that differ in `next` alone. -/
theorem takeFirst_of_body {blocks blocks' : Heap} (same : heap.map Block.body = blocks)
    (found : takeFirst size blocks = some (buffer, blocks')) :
    ∃ heap', takeFirst size heap = some (buffer, heap') ∧ heap'.map Block.body = blocks' := by
  rw [← same, takeFirst_body, Option.map_eq_some_iff] at found
  obtain ⟨⟨buffer, heap'⟩, found, pair⟩ := found
  cases pair
  exact ⟨heap', found, rfl⟩

/-- What is taken changes nothing but how much is used. -/
theorem map_takeFirst {α : Type} {f : Block → α} (blind : ∀ block : Block, f (block.take size) = f block)
    (found : takeFirst size heap = some (buffer, heap')) : heap'.map f = heap.map f := by
  rcases takeFirst_cases size heap with missed | ⟨before, block, after, rfl, -, found'⟩
  · rw [missed] at found
    cases found
  · rw [found'] at found
    cases found
    simp [blind]

theorem Chain.found (h : Chain arena heap) (found : takeFirst size heap = some (buffer, heap')) : Chain (arena.count size) heap' := by
  rcases takeFirst_cases size heap with missed | ⟨before, block, after, rfl, room, found'⟩
  · rw [missed] at found
    cases found
  · rw [found'] at found
    cases found
    exact h.take room

theorem Kept.found (h : Kept arena heap) (found : takeFirst size heap = some (buffer, heap')) : Kept (arena.count size) heap' := by
  rcases takeFirst_cases size heap with missed | ⟨before, block, after, rfl, room, found'⟩
  · rw [missed] at found
    cases found
  · rw [found'] at found
    cases found
    exact h.take room

/-! ## The two runs -/

/-- The demands are met by these buffers, whatever `malloc` would answer, and no block is added. -/
def Replays (demands : List Nat) (buffers : List Nat) (heap : Heap) : Prop :=
  ∀ (arena : SlArena) (again : List Demand), Chain arena heap → sizes again <+: demands →
    ∃ arena' heap', allocateAll again arena heap = some (buffers.take again.length, arena', heap') ∧
      Chain arena' heap' ∧ arena'.blocks = arena.blocks ∧ arena'.allocated = arena.allocated ∧
      heap'.map Block.clear = heap.map Block.clear

theorem replays_nil (heap : Heap) : Replays [] [] heap := by
  intro arena again chain same
  have none : again = [] := by simpa [sizes] using same
  subst none
  exact ⟨arena, heap, rfl, chain, rfl, rfl, rfl⟩

/-- One more demand in front, that a block has room for. -/
theorem Replays.cons {demands buffers : List Nat} (found : takeFirst size heap = some (buffer, heap')) (rest : Replays demands buffers heap') :
    Replays (size :: demands) (buffer :: buffers) heap := by
  intro arena again chain same
  cases again with
  | nil => exact ⟨arena, heap, rfl, chain, rfl, rfl, rfl⟩
  | cons demand again =>
    obtain ⟨malloc, size'⟩ := demand
    simp only [sizes, List.map_cons, List.cons_prefix_cons] at same
    obtain ⟨rfl, same⟩ := same
    obtain ⟨arena', heap'', run, chain', blocks, allocated, cleared⟩ := rest _ _ (chain.found found) same
    refine ⟨arena', heap'', ?_, chain', blocks, allocated, cleared.trans (map_takeFirst (fun _ => rfl) found)⟩
    rw [allocateAll, allocate_found chain found malloc]
    simp [run]

/-- The first of the demands is met, and so are the others. -/
theorem allocateAll_cons {malloc : Nat → Option Nat} {demands : List Demand} {buffers : List Nat} {s : SlArena × Heap}
    {found : Option Nat} (run : allocateAll ((malloc, size) :: demands) arena heap = some (buffers, s))
    (first : allocate malloc arena heap size = some (found, arena', heap')) :
    ∃ buffer rest, found = some buffer ∧ buffers = buffer :: rest ∧ allocateAll demands arena' heap' = some (rest, s) := by
  rw [allocateAll, first] at run
  simp only [Option.bind_eq_bind, Option.bind_some, Option.pure_def, Option.bind_eq_some_iff] at run
  obtain ⟨buffer, met, ⟨rest, s'⟩, run, pair⟩ := run
  cases pair
  exact ⟨buffer, rest, met, rfl, run⟩

/-- **The first run, and all that replay it.** `later` are the blocks that the run adds. From the same
blocks with these behind them, the demands are met in the same way. -/
theorem replays_of_run {demands : List Demand} {s : SlArena × Heap} :
    ∀ {buffers : List Nat} {arena : SlArena} {heap : Heap}, Kept arena heap → Trusted demands arena heap →
      allocateAll demands arena heap = some (buffers, s) →
        Kept s.1 s.2 ∧ ∃ later, (s.2.map Block.clear).map Block.body = (heap.map Block.clear).map Block.body ++ later ∧
          ∀ heap' : Heap, heap'.map Block.body = heap.map Block.body ++ later → Replays (sizes demands) buffers heap' := by
  induction demands with
  | nil =>
    intro buffers arena heap kept _ run
    cases run
    exact ⟨kept, [], by simp, fun heap' _ => replays_nil heap'⟩
  | cons demand demands ih =>
    intro buffers arena heap kept trusted run
    obtain ⟨malloc, size⟩ := demand
    obtain ⟨⟨fresh, placing, small⟩, trusted⟩ := trusted
    cases searched : takeFirst size heap with
    | some pair =>
      -- A block has room, and so it has in the replay.
      obtain ⟨buffer, heap₁⟩ := pair
      have first := allocate_found kept.chain searched malloc
      obtain ⟨_, rest, met, rfl, run'⟩ := allocateAll_cons run first
      cases met
      obtain ⟨kept', later, blocks, replays⟩ := ih (kept.found searched) (trusted _ _ _ first) run'
      rw [map_takeFirst (fun _ => rfl) searched] at blocks
      refine ⟨kept', later, blocks, fun heap' same => ?_⟩
      have found : takeFirst size (heap.map Block.body) = some (buffer, heap₁.map Block.body) := by
        rw [takeFirst_body, searched]
        rfl
      obtain ⟨heap'', found', same'⟩ := takeFirst_of_body same (takeFirst_append found later)
      exact (replays heap'' same').cons found'
    | none =>
      -- A block is added; in the replay it is the first behind those that are as full as they were.
      have first := allocate_eq kept.chain fresh (kept.askable small)
      rw [allocation, searched] at first
      cases answer : malloc (request arena size) with
      | none =>
        rw [answer] at first
        obtain ⟨_, _, met, -⟩ := allocateAll_cons run first
        cases met
      | some address =>
        let new : Block := { address, allocated := blockSize arena size }
        have fits : size ≤ new.allocated := le_blockSize (Nat.le_of_lt small)
        rw [answer] at first
        dsimp only at first
        rw [if_pos fits] at first
        obtain ⟨_, rest, met, rfl, run'⟩ := allocateAll_cons run first
        cases met
        have kept₁ : Kept (arena.extend new) (relink address heap ++ [new]) := kept.extend fresh placing small answer
        obtain ⟨kept', later, blocks, replays⟩ := ih (kept₁.take fits) (trusted _ _ _ first) run'
        refine ⟨kept', new :: later, ?_, fun heap' same => ?_⟩
        · rw [blocks, List.map_map, List.map_map, List.map_append, map_relink fun _ _ => rfl]
          simp [new, Block.body, Block.clear, Block.take]
        · have missed : takeFirst size (heap.map Block.body) = none := by
            rw [takeFirst_body, searched]
            rfl
          have found : takeFirst size (heap.map Block.body ++ new :: later) =
              some (new.free, heap.map Block.body ++ new.take size :: later) := by
            rw [takeFirst_behind missed, takeFirst, if_pos (show size ≤ new.allocated - new.used from fits)]
            rfl
          obtain ⟨heap'', found', same'⟩ := takeFirst_of_body same found
          refine (replays heap'' ?_).cons found'
          rw [same', List.map_append, map_relink fun _ _ => rfl]
          simp [new, Block.body, Block.take]

/-! ## Any number of rounds -/

/-- The arena is rewound, and asked for the first of the sizes. -/
def Round (demands : List Nat) (s s' : SlArena × Heap) : Prop :=
  ∃ heap again buffers, rewind s.1 s.2 = some heap ∧ sizes again <+: demands ∧ allocateAll again s.1 heap = some (buffers, s')

/-- The same blocks, of which different parts may be in use. -/
structure Unchanged (s s' : SlArena × Heap) : Prop where
  blocks : s'.1.blocks = s.1.blocks
  allocated : s'.1.allocated = s.1.allocated
  heap : s'.2.map Block.clear = s.2.map Block.clear

theorem Unchanged.trans {s s' s'' : SlArena × Heap} (h : Unchanged s s') (h' : Unchanged s' s'') : Unchanged s s'' :=
  ⟨h'.blocks.trans h.blocks, h'.allocated.trans h.allocated, h'.heap.trans h.heap⟩

/-- A rewind, and a part of the demands behind it. -/
theorem replay_rewound {demands buffers : List Nat} {s s₁ : SlArena × Heap} (chain : Chain s.1 s.2) (same : Unchanged s₁ s)
    (replays : Replays demands buffers (s₁.2.map Block.clear)) :
    ∃ heap, rewind s.1 s.2 = some heap ∧ ∀ again, sizes again <+: demands →
      ∃ s', allocateAll again s.1 heap = some (buffers.take again.length, s') ∧ Chain s'.1 s'.2 ∧ Unchanged s s' := by
  have rewound : rewind s.1 s.2 = some (s.2.map Block.clear) := @rewindFrom_eq s.2 [] _ _ chain.apart chain.linked (Nat.le_refl _)
  refine ⟨_, rewound, fun again part => ?_⟩
  obtain ⟨arena', heap', run, chain', blocks, allocated, cleared⟩ := (same.heap ▸ replays) s.1 again chain.rewind part
  refine ⟨(arena', heap'), run, chain', blocks, allocated, cleared.trans ?_⟩
  rw [List.map_map]
  rfl

/-- **Replaying after a rewind needs no new memory.** An arena of which nothing is used meets a list of
demands. Then it is rewound and asked for the same sizes, or the first of them, any number of times.
Its blocks are the same ever after; and another time the regions are the same in the same order,
whatever `malloc` would answer. -/
theorem replay_same {arena : SlArena} {heap : Heap} (reached : Reached Initialised (Calls fun _ _ => True) (arena, heap))
    (idle : ∀ block ∈ heap, block.used = 0) {demands : List Demand} (trusted : Trusted demands arena heap) {buffers : List Nat}
    {s₁ : SlArena × Heap} (run : allocateAll demands arena heap = some (buffers, s₁)) {s : SlArena × Heap}
    (rounds : Reached (fun s => s = s₁) (Round (sizes demands)) s) :
    Unchanged s₁ s ∧ ∃ heap, rewind s.1 s.2 = some heap ∧ ∀ again, sizes again <+: sizes demands →
      ∃ s', allocateAll again s.1 heap = some (buffers.take again.length, s') ∧ Unchanged s s' := by
  obtain ⟨kept, later, blocks, replays⟩ := replays_of_run (counted_of_reached reached).1 trusted run
  have cleared : heap.map Block.clear = heap := by
    refine (List.map_congr_left fun block there => ?_).trans (List.map_id heap)
    rw [Block.clear, ← idle block there]
    rfl
  rw [cleared] at blocks
  have again := replays _ blocks
  have inv : Chain s.1 s.2 ∧ Unchanged s₁ s := by
    apply rounds.invariant
    · rintro s rfl
      exact ⟨kept.chain, rfl, rfl, rfl⟩
    · rintro s s' ⟨chain, same⟩ ⟨heap, demands', buffers', rewound, part, run⟩
      obtain ⟨heap', rewound', next⟩ := replay_rewound chain same again
      cases rewound'.symm.trans rewound
      obtain ⟨s'', run', chain', same'⟩ := next demands' part
      cases run'.symm.trans run
      exact ⟨chain', same.trans same'⟩
  obtain ⟨chain, same⟩ := inv
  obtain ⟨heap, rewound, next⟩ := replay_rewound chain same again
  refine ⟨same, heap, rewound, fun demands' part => ?_⟩
  obtain ⟨s', run', -, same'⟩ := next demands' part
  exact ⟨s', run', same'⟩

theorem trusted_cons {malloc : Nat → Option Nat} {demands : List Demand} {found : Option Nat}
    (proper : (Call.allocate malloc size).Proper heap) (result : allocate malloc arena heap size = some (found, arena', heap'))
    (rest : Trusted demands arena' heap') : Trusted ((malloc, size) :: demands) arena heap := by
  refine ⟨proper, fun _ _ _ result' => ?_⟩
  cases result.symm.trans result'
  exact rest

/-- The second size is too large for the block of the first, and the third is not. -/
def mixed : List Demand := [(placedAt 64, 100), (placedAt 10000, 4090), (placedAt 30000, 50)]

/-- An arena of two blocks. -/
def twoBlocks (allocations used : Nat) : SlArena × Heap :=
  ({ init 4096 with first := some 64, last := some 10000, allocations, allocated := 12276, blocks := 2, used := used + 4090 },
    [{ address := 64, next := some 10000, allocated := 4096, used }, { address := 10000, allocated := 8180, used := 4090 }])

theorem trusted_mixed : Trusted mixed (init 4096) [] := by
  have first : allocate (placedAt 64) (init 4096) [] 100 = some (some 88, oneBlock.arena, oneBlock.heap) := by decide
  have second : allocate (placedAt 10000) oneBlock.arena oneBlock.heap 4090 = some (some 10024, twoBlocks 2 100) := by decide
  have third : allocate (placedAt 30000) (twoBlocks 2 100).1 (twoBlocks 2 100).2 50 = some (some 188, twoBlocks 3 150) := by decide
  refine trusted_cons (proper_placedAt (by simp) (by decide) (by decide)) first ?_
  refine trusted_cons (proper_placedAt (by decide) (by decide) (by decide)) second ?_
  exact trusted_cons (proper_placedAt (by decide) (by decide) (by decide)) third trivial

theorem replay_same_mixed :
    Unchanged (twoBlocks 3 150) (twoBlocks 3 150) ∧ ∃ heap, rewind (twoBlocks 3 150).1 (twoBlocks 3 150).2 = some heap ∧
      ∀ again, sizes again <+: sizes mixed →
        ∃ s', allocateAll again (twoBlocks 3 150).1 heap = some ([88, 10024, 188].take again.length, s') ∧ Unchanged (twoBlocks 3 150) s' :=
  @replay_same (init 4096) [] (.first ⟨4096, by decide, rfl⟩) (by simp) mixed trusted_mixed [88, 10024, 188] (twoBlocks 3 150) (by decide)
    (twoBlocks 3 150) (.first rfl)

end Cpptrw.Arena
