import Cpptrw.Leftover.SessionCarvings

/-!
# Where a session places its structures

Every octet area and every structure of a session is at an address that depends,
up to words, on the octet areas that were carved before it from the same block
and on nothing else. This is kept by every call of `sl_arena_allocate`, and so
it holds whatever clients a slot has served.
-/

namespace Cpptrw.Leftover

open Lib Arena

variable {S : Setting} {w w' : World}

/-- Up to words, the address of a carving is what was loose in its block before. -/
def Placed (heap : Heap) (carvings : List Carving) : Prop :=
  ∀ later carving earlier, carvings = later ++ carving :: earlier →
    ∃ block ∈ heap, carving.region.Within block.payload ∧ carving.address % 8 = looseIn block earlier % 8

/-- Blocks that are there with the same payload. -/
theorem Placed.mono {heap heap' : Heap} {carvings : List Carving} (h : Placed heap carvings)
    (kept : ∀ block ∈ heap, ∃ block' ∈ heap', block'.payload = block.payload) : Placed heap' carvings := by
  intro later carving earlier split
  obtain ⟨block, there, inside, address⟩ := h later carving earlier split
  obtain ⟨block', there', same⟩ := kept block there
  refine ⟨block', there', same ▸ inside, ?_⟩
  rw [address, looseIn, looseIn, same]

theorem Placed.cons {heap : Heap} {carvings : List Carving} (h : Placed heap carvings) {carving : Carving} {block : Block}
    (there : block ∈ heap) (inside : carving.region.Within block.payload)
    (address : carving.address % 8 = looseIn block carvings % 8) : Placed heap (carving :: carvings) := by
  intro later other earlier split
  cases later with
  | nil =>
    obtain ⟨rfl, rfl⟩ := List.cons.inj split
    exact ⟨block, there, inside, address⟩
  | cons first later => exact h later other earlier (List.cons.inj split).2

/-- A call of `sl_arena_allocate` leaves the payloads where they are. -/
theorem payloads_kept {arena arena' : SlArena} {heap heap' : Heap} (h : Chained arena heap) {malloc : Nat → Option Nat}
    (fresh : Fresh malloc heap) {size : Nat} (requestable : Requestable size) {buffer : Option Nat}
    (result : Arena.allocate malloc arena heap size = some (buffer, arena', heap')) :
    ∀ block ∈ heap, ∃ block' ∈ heap', block'.payload = block.payload := by
  have bounded := blockSize_le h.preallocate requestable
  have askable : Askable arena size := by
    unfold Askable headerSize
    omega
  rw [allocate_eq h.chain fresh askable, allocation] at result
  rcases takeFirst_cases size heap with missed | ⟨before, block, after, rfl, -, found⟩
  · rw [missed] at result
    cases answer : malloc (request arena size) with
    | none =>
      rw [answer] at result
      cases result
      exact fun block there => ⟨block, there, rfl⟩
    | some address =>
      have extended : ∀ new : Block, ∀ block ∈ heap, ∃ block' ∈ relink address heap ++ [new], block'.payload = block.payload := by
        intro new block there
        have here : block.payload ∈ (relink address heap).map Block.payload := by
          rw [map_relink fun _ _ => rfl]
          exact List.mem_map_of_mem there
        obtain ⟨block', found, same⟩ := List.mem_map.mp here
        exact ⟨block', List.mem_append_left _ found, same⟩
      rw [answer] at result
      dsimp only at result
      split at result
      · cases result
        exact extended _
      · cases result
        exact extended _
  · rw [found] at result
    cases result
    intro other there
    rcases List.mem_append.mp there with there | there
    · exact ⟨other, List.mem_append_left _ there, rfl⟩
    · rcases List.mem_cons.mp there with rfl | there
      · exact ⟨other.take size, List.mem_append_right _ List.mem_cons_self, rfl⟩
      · exact ⟨other, List.mem_append_right _ (List.mem_cons_of_mem _ there), rfl⟩

/-- **One call** places what it is for behind what is loose in the block. -/
theorem Placed.allocate {s : Carved} (sound : s.Sound) (h : Placed s.heap s.carvings) {malloc : Nat → Option Nat}
    (mallocs : Mallocs malloc s.heap) {use : Use} {buffer : Option Nat} {arena : SlArena} {heap : Heap}
    (result : Arena.allocate malloc s.arena s.heap use.size = some (buffer, arena, heap)) :
    Placed heap (carved use s.carvings buffer) := by
  have kept := h.mono (payloads_kept sound.sound.chained mallocs.fresh use.requestable result)
  cases buffer with
  | none => exact kept
  | some pointer =>
    obtain ⟨_, _, _, result', -, ends, -⟩ := sound.sound.allocate mallocs.fresh use.requestable
    cases result.symm.trans result'
    obtain ⟨block, there, starts, ends⟩ := ends pointer rfl
    obtain ⟨_, _, _, result', sound', -⟩ := sound.allocate mallocs use
    cases result.symm.trans result'
    have used := (sound'.sound.chained.bounded block there).used
    have inside : (Carving.region ⟨use, pointer⟩).Within block.payload := by
      simp only [Carving.region, Region.Within, Block.payload, Block.free] at *
      omega
    refine kept.cons there inside ?_
    -- what is used of the block is, up to words, what is loose in it, and the carving is at the end
    have aligned : 16 ∣ block.address := sound'.aligned block there
    have loose : block.used % 8 = looseIn block (⟨use, pointer⟩ :: s.carvings) % 8 := sound'.loose block there
    rw [looseIn_cons, if_pos inside] at loose
    have size := use.size_mod
    dsimp only at loose ⊢
    simp only [Block.free, headerSize] at ends
    omega

def unused : World := { memory := fun _ => 0, arena := { preallocate := 0 }, heap := [] }

end Cpptrw.Leftover
