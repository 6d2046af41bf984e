import Cpptrw.Arena.Replay
import Cpptrw.Leftover.Objects
import Cpptrw.Leftover.Recycled
import Cpptrw.Lib.Transcript
import Cpptrw.Main.Dialogue

/-!
# The same request again

What a connection does is decided by what the arena and the kernel answer. A
connection that was kept has its arena rewound, and when the same is received
again the arena is asked for the same sizes; it answers in the same way then,
from the blocks it has, whatever `malloc` would answer. So a client that sends
its request again and again is served in the same way each time, and no block
is added behind the first time.
-/

namespace Cpptrw.Leftover

open Lib Lib.Prog Lib.Platform Arena

variable {P : Platform} {S : Setting} {exchanges : List Exchange} {r r' : Resources}

/-! ## Exchanges with the arena -/

/-- The sizes that are asked for. -/
def sizesOf : List Exchange → List Nat
  | [] => []
  | .allocated n _ :: rest => n :: sizesOf rest
  | .written _ _ :: rest => sizesOf rest

/-- The same, with what `malloc` would answer at each time. -/
def demandsOf (S : Setting) : List Exchange → Resources → List Demand
  | [], _ => []
  | .allocated n _ :: rest, r => (S.malloc r.calls r.heap, n) :: demandsOf S rest ((arenaPlatform S).allocate r n).2
  | .written buffers _ :: rest, r => demandsOf S rest ((arenaPlatform S).writev r buffers).2

/-- Nothing is refused, and nothing of half the address space is asked for. -/
def Met (exchanges : List Exchange) : Prop := ∀ n met, .allocated n met ∈ exchanges → met = true ∧ n < 2 ^ 62

/-- What the kernel answers, behind so many calls of `writev`. -/
def Taken (S : Setting) : List Exchange → Nat → Prop
  | [], _ => True
  | .allocated _ _ :: rest, count => Taken S rest count
  | .written buffers taken :: rest, count => S.writev count buffers = taken ∧ Taken S rest (count + 1)

theorem sizes_demandsOf (S : Setting) (exchanges : List Exchange) :
    ∀ r : Resources, sizes (demandsOf S exchanges r) = sizesOf exchanges := by
  induction exchanges with
  | nil => exact fun _ => rfl
  | cons exchange rest ih =>
    intro r
    cases exchange with
    | allocated n met => exact congrArg (n :: ·) (ih _)
    | written buffers taken => exact ih _

theorem Met.tail {exchange : Exchange} {rest : List Exchange} (h : Met (exchange :: rest)) : Met rest :=
  fun n met there => h n met (List.mem_cons_of_mem _ there)

/-- A request that the arena met. -/
theorem allocate_of_met {n : Nat} (met : ((arenaPlatform S).allocate r n).1 = true) :
    ∃ buffer arena heap, Arena.allocate (S.malloc r.calls r.heap) r.arena r.heap n = some (some buffer, arena, heap) ∧
      ((arenaPlatform S).allocate r n).2 = { r with arena, heap, calls := r.calls + 1 } := by
  simp only [arenaPlatform] at met ⊢
  cases result : Arena.allocate (S.malloc r.calls r.heap) r.arena r.heap n with
  | none =>
    rw [result] at met
    cases met
  | some found =>
    obtain ⟨buffer, arena, heap⟩ := found
    rw [result] at met
    obtain ⟨pointer, rfl⟩ := Option.isSome_iff_exists.mp met
    exact ⟨pointer, arena, heap, rfl, rfl⟩

/-- The exchanges with the platform are calls of `sl_arena_allocate`. -/
theorem allocateAll_of_gives (met : Met exchanges) (h : (arenaPlatform S).Gives exchanges r r') :
    (∃ buffers, allocateAll (demandsOf S exchanges r) r.arena r.heap = some (buffers, r'.arena, r'.heap)) ∧
      Taken S exchanges r.sent.length := by
  induction exchanges generalizing r with
  | nil =>
    cases h
    exact ⟨⟨[], rfl⟩, trivial⟩
  | cons exchange rest ih =>
    cases exchange with
    | allocated n answer =>
      obtain ⟨same, behind⟩ := h
      rw [(met n answer List.mem_cons_self).1] at same
      obtain ⟨buffer, arena, heap, result, next⟩ := allocate_of_met same
      obtain ⟨⟨buffers, run⟩, taken⟩ := ih met.tail behind
      rw [next] at run taken
      refine ⟨⟨buffer :: buffers, ?_⟩, taken⟩
      rw [demandsOf, allocateAll, result, next]
      simp [run]
    | written buffers answer =>
      obtain ⟨same, behind⟩ := h
      obtain ⟨run, taken⟩ := ih met.tail behind
      refine ⟨run, same, ?_⟩
      simpa [arenaPlatform] using taken

/-- And calls that return buffers are the exchanges. -/
theorem gives_of_allocateAll (met : Met exchanges) (taken : Taken S exchanges r.sent.length) {buffers : List Nat} {s : SlArena × Heap}
    (run : allocateAll (demandsOf S exchanges r) r.arena r.heap = some (buffers, s)) :
    ∃ r', (arenaPlatform S).Gives exchanges r r' ∧ r'.arena = s.1 ∧ r'.heap = s.2 := by
  induction exchanges generalizing r buffers with
  | nil =>
    cases run
    exact ⟨r, rfl, rfl, rfl⟩
  | cons exchange rest ih =>
    cases exchange with
    | allocated n answer =>
      cases result : Arena.allocate (S.malloc r.calls r.heap) r.arena r.heap n with
      | none =>
        rw [demandsOf, allocateAll, result] at run
        cases run
      | some found =>
        obtain ⟨buffer, arena, heap⟩ := found
        obtain ⟨pointer, others, rfl, -, behind⟩ := allocateAll_cons run result
        have here : (arenaPlatform S).allocate r n = (true, { r with arena, heap, calls := r.calls + 1 }) := by
          simp only [arenaPlatform, result, Option.isSome_some]
        rw [here] at behind
        obtain ⟨r', gives, same⟩ := ih (r := { r with arena, heap, calls := r.calls + 1 }) met.tail taken behind
        refine ⟨r', ⟨?_, ?_⟩, same⟩
        · rw [here, (met n answer List.mem_cons_self).1]
        · rw [here]
          exact gives
    | written octets answer =>
      obtain ⟨here, taken⟩ := taken
      have next : Taken S rest ((arenaPlatform S).writev r octets).2.sent.length := by simpa [arenaPlatform] using taken
      obtain ⟨r', gives, same⟩ := ih met.tail next run
      exact ⟨r', ⟨here, gives⟩, same⟩

theorem trusted_demandsOf (sound : S.Sound) (met : Met exchanges) : ∀ r : Resources,
    Trusted (demandsOf S exchanges r) r.arena r.heap := by
  induction exchanges with
  | nil => exact fun _ => trivial
  | cons exchange rest ih =>
    intro r
    cases exchange with
    | allocated n answer =>
      have placing : Placing (S.malloc r.calls r.heap) := fun size address h => Nat.le_of_lt (sound.range r.calls r.heap size address h)
      refine ⟨⟨sound.fresh r.calls r.heap, placing, (met n answer List.mem_cons_self).2⟩, fun buffer arena heap result => ?_⟩
      have next := ih met.tail ((arenaPlatform S).allocate r n).2
      simp only [arenaPlatform, result] at next
      simpa only [arenaPlatform, result] using next
    | written octets answer => exact ih met.tail _

/-- What becomes of a connection when octets are received is decided by what the platform answers. -/
theorem decided_recvLoop (connection : Main.Connection) (results : List Main.Received) :
    Decided (Main.recvLoop connection results : Prog P.transcribing _) :=
  Main.compositional_recvLoop compositional_decided (Main.compositional_parseBuffer compositional_decided decided_writev) results
    connection

/-! ## From one time to the next -/

/-- The slot of a connection that was kept: its blocks are these, none of them is used, and nothing was sent. -/
structure Idle (blocks : Heap) (r : Resources) : Prop where
  chain : Chain r.arena r.heap
  heap : r.heap = blocks
  unused : ∀ block ∈ blocks, block.used = 0
  unsent : r.sent = []

theorem clear_of_unused {blocks : Heap} (unused : ∀ block ∈ blocks, block.used = 0) : blocks.map Block.clear = blocks := by
  refine (List.map_congr_left fun block there => ?_).trans (List.map_id blocks)
  rw [Block.clear, ← unused block there]
  rfl

/-- `sl_net_init_connection` gives all blocks back. -/
theorem idle_rewind (chain : Chain r.arena r.heap) : Idle (r.heap.map Block.clear) ((arenaPlatform S).rewind r) := by
  have unused : ∀ block ∈ r.heap.map Block.clear, block.used = 0 := by
    intro block there
    obtain ⟨block', -, rfl⟩ := List.mem_map.mp there
    rfl
  have begun : ∃ arena, restart r.arena r.heap = some (arena, r.heap.map Block.clear) ∧ Chain arena (r.heap.map Block.clear) := by
    unfold restart
    split
    · rename_i none
      have linked := chain.linked
      rw [none] at linked
      cases blocks : r.heap with
      | nil => exact ⟨_, rfl, rfl, rfl, .nil, fun block there => absurd there List.not_mem_nil⟩
      | cons block rest =>
        rw [blocks] at linked
        cases linked.1
    · have rewound : Arena.rewind r.arena r.heap = some (r.heap.map Block.clear) :=
        @rewindFrom_eq r.heap [] _ _ chain.apart chain.linked (Nat.le_refl _)
      exact ⟨r.arena, by rw [rewound]; rfl, chain.rewind⟩
  obtain ⟨arena, restarted, chain'⟩ := begun
  simp only [arenaPlatform, restarted]
  exact ⟨chain', rfl, unused, rfl⟩

/-- The sizes are asked for again, and answered as they were; and the blocks are the same behind it. -/
theorem Idle.gives {blocks : Heap} (idle : Idle blocks r) {buffers : List Nat} (replays : Replays (sizesOf exchanges) buffers blocks)
    (met : Met exchanges) (taken : Taken S exchanges 0) :
    ∃ r', (arenaPlatform S).Gives exchanges r r' ∧ Idle blocks ((arenaPlatform S).rewind r') := by
  have same := sizes_demandsOf S exchanges r
  obtain ⟨arena', heap', run, chain', -, -, cleared⟩ := replays r.arena (demandsOf S exchanges r) (idle.heap ▸ idle.chain)
    (same ▸ List.prefix_rfl)
  rw [← idle.heap] at run
  obtain ⟨r', gives, rfl, rfl⟩ := gives_of_allocateAll met (by rw [idle.unsent]; exact taken) run
  have next := @idle_rewind S r' chain'
  rw [cleared, clear_of_unused idle.unused] at next
  exact ⟨r', gives, next⟩

/-- What is received is received again, so many times. -/
theorem serve_again {results : List Main.Received} {blocks : Heap} {requests : List Fcgi.Request}
    (again : ∀ r before, Idle blocks r → ∃ r', Idle blocks r' ∧
      (Main.processConnection .fresh results : Prog (arenaPlatform S).transcribing _) (transcribed r before) =
        .ok ((⟨true, true⟩, Main.Connection.fresh.behind requests), transcribed r' (before ++ exchanges))) (n : Nat) :
    ∀ r before earlier, Idle blocks r → ∃ r', Idle blocks r' ∧
      (Main.serve (Main.Connection.fresh.behind earlier) (List.replicate n results) : Prog (arenaPlatform S).transcribing _)
          (transcribed r before) =
        .ok ((List.replicate n ⟨true, true⟩, Main.Connection.fresh.behind (earlier ++ (List.replicate n requests).flatten)),
          transcribed r' (before ++ (List.replicate n exchanges).flatten)) := by
  induction n with
  | zero =>
    intro r before earlier idle
    exact ⟨r, idle, by simp [Main.serve, pure_apply]⟩
  | succ n ih =>
    intro r before earlier idle
    obtain ⟨r₁, idle₁, run⟩ := again r before idle
    have next : (Main.Connection.fresh.behind requests).behind earlier = Main.Connection.fresh.behind (earlier ++ requests) := by
      simp [Main.Connection.behind, Main.Connection.fresh]
    obtain ⟨r', idle', rest⟩ := ih r₁ (before ++ exchanges) (earlier ++ requests) idle₁
    refine ⟨r', idle', ?_⟩
    rw [List.replicate_succ, Main.serve, Main.processConnection_behind, bind_assoc, bind_apply, run]
    dsimp only
    rw [pure_bind, if_pos rfl, next, bind_apply, rest]
    simp [pure_apply, List.replicate_succ]

/-- A call that keeps the connection ends with `sl_net_init_connection`. -/
theorem processConnection_kept {connection c : Main.Connection} {results : List Main.Received} {s s' : P.State}
    (run : Main.processConnection connection results s = .ok ((⟨true, true⟩, c), s')) :
    ∃ last s₁, Main.recvLoop connection results s = .ok (last, s₁) ∧ s' = P.rewind s₁ ∧
      c = Main.Connection.fresh.behind last.executed ∧ ∀ t t₁, Main.recvLoop connection results t = .ok (last, t₁) →
        Main.processConnection connection results t = .ok ((⟨true, true⟩, c), P.rewind t₁) := by
  obtain ⟨last, s₁, received, run⟩ := exists_of_run_bind run
  refine ⟨last, s₁, received, ?_⟩
  split at run
  · cases run
  · rename_i fine
    split at run
    · rename_i stays
      obtain ⟨c', s₂, started, run⟩ := exists_of_run_bind run
      cases run
      cases started
      refine ⟨rfl, by simp [Main.Connection.behind, Main.Connection.fresh], fun t t₁ again => ?_⟩
      rw [Main.processConnection, bind_apply, again]
      dsimp only
      rw [if_neg fine, if_pos stays]
      rfl
    · cases run

/-- **The same request, any number of times.** A slot whose arena has been made or rewound receives a request
and is kept, and no memory is refused. When the same is received again and again, each call keeps the connection,
executes the same and exchanges the same with the arena and the kernel; and there are no more blocks than behind
the first call, whatever `malloc` would answer. -/
theorem same_request_again (sound : S.Sound) {r₀ r₁ : Resources} (reached : Reached Initialised (Calls fun _ _ => True) (r₀.arena, r₀.heap))
    (idle : ∀ block ∈ r₀.heap, block.used = 0) (unsent : r₀.sent = []) {results : List Main.Received} {c : Main.Connection}
    (run : (Main.processConnection .fresh results : Prog (arenaPlatform S).transcribing _) (transcribed r₀ []) =
      .ok ((⟨true, true⟩, c), transcribed r₁ exchanges)) (met : Met exchanges) (n : Nat) :
    ∃ r', r'.heap = r₁.heap ∧
      (Main.serve .fresh (List.replicate (n + 1) results) : Prog (arenaPlatform S).transcribing _) (transcribed r₀ []) =
        .ok ((List.replicate (n + 1) ⟨true, true⟩, Main.Connection.fresh.behind (List.replicate (n + 1) c.executed).flatten),
          transcribed r' (List.replicate (n + 1) exchanges).flatten) := by
  obtain ⟨last, middle, received, ended, rfl, again⟩ := processConnection_kept run
  obtain ⟨r, xs, rfl, gives, decided⟩ := decided_recvLoop .fresh results r₀ [] last middle received
  obtain ⟨rfl, rfl⟩ : r₁ = (arenaPlatform S).rewind r ∧ exchanges = xs := Prod.ext_iff.mp ended
  -- the calls of the first time, and the blocks behind them
  obtain ⟨⟨buffers, calls⟩, taken⟩ := allocateAll_of_gives met gives
  rw [unsent] at taken
  obtain ⟨kept, later, blocks, replays⟩ := replays_of_run (counted_of_reached reached).1 (trusted_demandsOf sound met r₀) calls
  rw [clear_of_unused idle] at blocks
  have replays := replays _ blocks
  rw [sizes_demandsOf] at replays
  have idle₁ : Idle (r.heap.map Block.clear) ((arenaPlatform S).rewind r) := idle_rewind kept.chain
  have once : ∀ t before, Idle (r.heap.map Block.clear) t → ∃ t', Idle (r.heap.map Block.clear) t' ∧
      (Main.processConnection .fresh results : Prog (arenaPlatform S).transcribing _) (transcribed t before) =
        .ok ((⟨true, true⟩, Main.Connection.fresh.behind last.executed), transcribed t' (before ++ exchanges)) := by
    intro t before here
    obtain ⟨t₁, gives', next⟩ := here.gives replays met taken
    exact ⟨_, next, again _ _ (decided t t₁ before gives')⟩
  obtain ⟨r', idle', rest⟩ := serve_again once n _ exchanges last.executed idle₁
  refine ⟨r', idle'.heap.trans idle₁.heap.symm, ?_⟩
  rw [List.replicate_succ, Main.serve, bind_apply, run]
  dsimp only
  rw [if_pos rfl, bind_apply, rest]
  simp [pure_apply, List.replicate_succ, Main.Connection.behind, Main.Connection.fresh]

/-- An exchange that is allowed. -/
def allowedExchange : Exchange → Bool
  | .allocated n met => met && n < 2 ^ 62
  | .written _ _ => true

theorem met_of_allowed (fine : exchanges.all allowedExchange = true) : Met exchanges := by
  intro n met there
  have here := List.all_eq_true.mp fine _ there
  simpa [allowedExchange] using here

/-- An arena that has just been made. -/
def madeSlot : Resources := { arena := Arena.init arenaPreallocate, heap := [] }

/-- However often a client sends a request with one parameter, its arena has one block. -/
theorem same_request_again_small (n : Nat) :
    ∃ c s', (Main.serve .fresh (List.replicate (n + 1) [.octets smallRequest.flatten]) : Prog (arenaPlatform onePlace).transcribing _)
        (transcribed madeSlot []) = .ok ((List.replicate (n + 1) ⟨true, true⟩, c), s') ∧
      c.executed.length = n + 1 ∧ (Prod.fst s').heap.length = 1 := by
  have first : (match (Main.processConnection .fresh [.octets smallRequest.flatten] : Prog (arenaPlatform onePlace).transcribing _)
      (transcribed madeSlot []) with
      | .ok ((call, c), s) => decide (call = ⟨true, true⟩ ∧ c.executed.length = 1 ∧ s.1.heap.length = 1 ∧ s.2.all allowedExchange = true)
      | .error _ => false) = true := by decide +kernel
  cases run : (Main.processConnection .fresh [.octets smallRequest.flatten] : Prog (arenaPlatform onePlace).transcribing _)
      (transcribed madeSlot []) with
  | error e =>
    rw [run] at first
    cases first
  | ok result =>
    obtain ⟨⟨call, c⟩, r, exchanges⟩ := result
    rw [run] at first
    obtain ⟨rfl, once, block, fine⟩ := of_decide_eq_true first
    have made : Reached Initialised (Calls fun _ _ => True) (madeSlot.arena, madeSlot.heap) := .first ⟨arenaPreallocate, by decide, rfl⟩
    obtain ⟨r', same, served⟩ := same_request_again sound_onePlace made (by simp [madeSlot]) rfl run (met_of_allowed fine) n
    refine ⟨_, _, served, ?_, ?_⟩
    · simp [Main.Connection.behind, Main.Connection.fresh, once]
    · exact (congrArg List.length same).trans block

end Cpptrw.Leftover
