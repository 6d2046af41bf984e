import Cpptrw.Leftover.Connection

/-!
# A slot that is used again

Two worlds whose arenas have the same blocks are alike once their slots are
initialised, whatever an earlier client left in memory and in the slots, for
nothing is written yet. All that is done for the new client keeps them alike.
-/

namespace Cpptrw.Leftover

open Lib Arena
open Text (octetsOf)

variable {S : Setting} {Γ : Typing} {w w' v : World} {frame : Nat}

/-- A slot between two clients: its arena is a chain of blocks that `malloc` returned, or was never
initialised. Nothing is said of the memory. -/
structure Recycled (frame : Nat) (w : World) : Prop where
  chained : Chained w.arena w.heap
  preallocate : w.arena.first = none ∨ w.arena.preallocate = arenaPreallocate
  apart : ∀ block ∈ w.heap, block.storage.Disjoint ⟨frame, 88⟩
  range : ∀ block ∈ w.heap, block.storage.start + block.storage.size < 2 ^ 64

/-- The same blocks, of which different parts may be in use. -/
def SameBlocks (w v : World) : Prop := w.heap.map Block.clear = v.heap.map Block.clear

/-! ## Behind `sl_net_init_connection` -/

/-- What `sl_net_init_connection` makes of the connection. -/
def fresh : Connection := ⟨{}, .init Main.paramsPreallocate⟩

theorem Recycled.restart (recycled : Recycled frame w) :
    ∃ arena, restart w.arena w.heap = some (arena, w.heap.map Block.clear) ∧ Chained arena (w.heap.map Block.clear) ∧
      arena.preallocate = arenaPreallocate := by
  have chained := recycled.chained
  unfold Leftover.restart
  by_cases never : w.arena.first = none
  · have empty : w.heap = [] := by
      cases blocks : w.heap with
      | nil => rfl
      | cons block rest =>
        have linked := chained.linked
        rw [blocks] at linked
        exact absurd never (@Linked.first_ne_none [] rest block _ linked)
    rw [if_pos never, empty]
    exact ⟨_, rfl, ⟨rfl, rfl, List.Pairwise.nil, fun block none => absurd none List.not_mem_nil, by decide⟩, rfl⟩
  · have rewound := @rewindFrom_eq w.heap [] _ _ chained.apart chained.linked (Nat.le_refl _)
    rw [if_neg never]
    refine ⟨w.arena, ?_, chained.rewind, recycled.preallocate.resolve_left never⟩
    exact congrArg (Option.map fun heap => (w.arena, heap)) rewound

/-- The world behind `sl_net_init_connection` is good, and nothing is in it. -/
theorem Recycled.init (recycled : Recycled S.frame w) (slot : Connection) :
    ∃ arena, initConnection slot w = (.ok fresh, { memory := w.memory, arena, heap := w.heap.map Block.clear }) ∧
      Good S (fun _ => none) { memory := w.memory, arena, heap := w.heap.map Block.clear } := by
  obtain ⟨arena, result, chained, preallocate⟩ := recycled.restart
  refine ⟨arena, ?_, ⟨chained, ?_, List.Pairwise.nil⟩, preallocate, ?_, ?_, nofun, nofun⟩
  · unfold initConnection
    rw [result]
    rfl
  · intro region none
    exact absurd none List.not_mem_nil
  · intro block there
    obtain ⟨old, before, rfl⟩ := List.mem_map.mp there
    exact recycled.apart old before
  · intro block there
    obtain ⟨old, before, rfl⟩ := List.mem_map.mp there
    exact recycled.range old before

theorem Linked.unique {pointer pointer' : Option Nat} : ∀ {blocks : List Block}, Linked pointer blocks → Linked pointer' blocks →
    pointer = pointer'
  | [], here, here' => here.trans (Eq.symm here')
  | _ :: _, here, here' => here.1.trans here'.1.symm

/-- One chain of blocks has one first and one last block. -/
theorem Good.alike {arena arena' : SlArena} {heap : Heap} {memory memory' : Memory} (good : Good S Γ { memory, arena, heap })
    (good' : Good S Γ { memory := memory', arena := arena', heap }) :
    Same { memory, arena, heap } { memory := memory', arena := arena', heap } := by
  have chained := good.sound.chained
  have chained' := good'.sound.chained
  refine ⟨⟨Linked.unique chained.linked chained'.linked, ?_, ?_⟩, rfl, rfl, rfl, rfl, rfl, nofun⟩
  · exact chained.last.trans chained'.last.symm
  · exact good.preallocate.trans good'.preallocate.symm

/-! ## A session -/

/-- What is done with a connection that was initialised. -/
theorem parses_session (sound : S.Sound) (good : Good S (fun _ => none) w) (buffers : List (List UInt8)) :
    Parses S (fun _ => none) w (do
      layLocals S
      let connection ← parseBuffers S fresh buffers
      observe S connection) fun _ _ _ => True := by
  apply (Keeps.layLocals sound good fun _ _ => rfl).parses
  rintro _ Γ₁ w₁ good₁ later₁ ⟨headerName, valueName⟩
  have closed : NoneOpen fun _ => none := by
    intro a _ _ _ _ here
    cases here
  have none : NoneOpen Γ₁ := closed.later later₁
  have ok : ConnectionOk S fresh Γ₁ w₁ := ⟨parserOk_init none w₁, requestOk_init (by decide) Γ₁ w₁, headerName, valueName⟩
  apply (Parses.parseBuffers sound buffers fresh Γ₁ w₁ good₁ ok).bind
  intro connection Γ₂ w₂ good₂ _ ok₂
  exact .reads good₂ (reads_observe good₂ ok₂)

/-- A session from a slot, and from every slot with the same blocks. -/
theorem session_runs (sound : S.Sound) (recycled : Recycled S.frame w) (recycled' : Recycled S.frame v) (same : SameBlocks w v)
    (slot slot' : Connection) (buffers : List (List UInt8)) :
    (session S slot buffers w).1 = (session S slot' buffers v).1 ∧
      Same (session S slot buffers w).2 (session S slot' buffers v).2 ∧
      ∀ observed, (session S slot buffers w).1 = .ok observed → ∃ Γ, Good S Γ (session S slot buffers w).2 := by
  obtain ⟨arena, started, good⟩ := recycled.init slot
  obtain ⟨arena', started', good'⟩ := recycled'.init slot'
  rw [← show w.heap.map Block.clear = v.heap.map Block.clear from same] at started' good'
  have like := good.alike good'
  obtain ⟨result, like', after⟩ := parses_session sound good buffers _ like
  unfold session
  rw [Machine.bind_apply, Machine.bind_apply, started, started']
  refine ⟨result, like', fun observed here => ?_⟩
  obtain ⟨Γ, good, -⟩ := after observed here
  exact ⟨Γ, good⟩

/-! ## Clients one after another -/

/-- A slot of `sl_main_event_loop` at first. -/
def Zeroed (w : World) : Prop := w.arena = { preallocate := 0 } ∧ w.heap = []

/-- A session of a client, with whatever `malloc` and `writev` answer, and whatever is in memory before. -/
inductive Serves (frame : Nat) : World → World → Prop
  | session {S : Setting} (sound : S.Sound) (here : S.frame = frame) (w : World) (memory : Memory) (slot : Connection)
      (buffers : List (List UInt8)) {observed : Observed} {w' : World}
      (h : Leftover.session S slot buffers { w with memory } = (.ok observed, w')) : Serves frame w w'

theorem Good.recycled (good : Good S Γ w) : Recycled S.frame w :=
  ⟨good.sound.chained, Or.inr good.preallocate, good.apart, good.range⟩

/-- What a client leaves is a slot for the next one. -/
theorem Recycled.serves (recycled : Recycled frame w) (step : Serves frame w w') : Recycled frame w' := by
  cases step with
  | session sound here _ memory slot buffers h =>
    subst here
    have recycled' : Recycled _ { w with memory } := ⟨recycled.chained, recycled.preallocate, recycled.apart, recycled.range⟩
    obtain ⟨-, -, ends⟩ := session_runs sound recycled' recycled' rfl slot slot buffers
    rw [h] at ends
    obtain ⟨Γ, good⟩ := ends _ rfl
    exact good.recycled

theorem recycled_of_reached (h : Reached Zeroed (Serves frame) w) : Recycled frame w := by
  refine h.invariant ?_ fun _ _ recycled step => recycled.serves step
  rintro w ⟨arena, heap⟩
  have chained : Chained w.arena w.heap := by
    rw [arena, heap]
    exact ⟨rfl, rfl, List.Pairwise.nil, fun block none => absurd none List.not_mem_nil, by decide⟩
  refine ⟨chained, Or.inl (by rw [arena]), ?_, ?_⟩
  · rw [heap]
    exact fun block none => absurd none List.not_mem_nil
  · rw [heap]
    exact fun block none => absurd none List.not_mem_nil

/-- **Nothing leaks from an earlier client.** From two worlds whose arenas have the same blocks, with
anything in memory and in the slots, a session comes to the same result: the parser, the request, the
parameter table and the data, or the same fault. The same octets go to `writev`, the same addresses
are written, and the same octets are there. -/
theorem session_independent (sound : S.Sound) (recycled : Recycled S.frame w) (recycled' : Recycled S.frame v) (same : SameBlocks w v)
    (slot slot' : Connection) (buffers : List (List UInt8)) :
    (session S slot buffers w).1 = (session S slot' buffers v).1 ∧
      (session S slot buffers w).2.sent = (session S slot' buffers v).2.sent ∧
      (session S slot buffers w).2.written = (session S slot' buffers v).2.written ∧
      ∀ address, (session S slot buffers w).2.written address = true →
        (session S slot buffers w).2.memory address = (session S slot' buffers v).2.memory address := by
  obtain ⟨result, like, -⟩ := session_runs sound recycled recycled' same slot slot' buffers
  exact ⟨result, like.sent, like.written, like.memory⟩

/-- A `malloc` that has one place, and a `writev` that takes all. -/
def onePlace : Setting where
  malloc _ heap size := if size < 2 ^ 40 ∧ ∀ block ∈ heap, block.storage.Disjoint ⟨2 ^ 30, size⟩ then some (2 ^ 30) else none
  writev _ buffers := some buffers.flatten.length
  frame := 2 ^ 20
  fuel := 1000

theorem onePlace_malloc {call size address : Nat} {heap : Heap} (h : onePlace.malloc call heap size = some address) :
    (size < 2 ^ 40 ∧ ∀ block ∈ heap, block.storage.Disjoint ⟨2 ^ 30, size⟩) ∧ address = 2 ^ 30 := by
  obtain ⟨free, same⟩ := Option.ite_none_right_eq_some.mp h
  exact ⟨free, (Option.some.inj same).symm⟩

theorem sound_onePlace : onePlace.Sound := by
  refine ⟨fun call heap size address h => ?_, fun call heap size address h => ?_, fun call heap size address h => ?_, by decide⟩
  · obtain ⟨⟨-, free⟩, rfl⟩ := onePlace_malloc h
    exact free
  · obtain ⟨-, rfl⟩ := onePlace_malloc h
    simp only [Region.Disjoint, Setting.stack, onePlace]
    omega
  · obtain ⟨⟨small, -⟩, rfl⟩ := onePlace_malloc h
    omega

/-- An arena of one block, and memory full of one octet. -/
def leftover (octet : UInt8) (used : Nat) : World where
  memory := fun _ => octet
  arena := { first := some 4096, last := some 4096, preallocate := arenaPreallocate, allocated := arenaPreallocate, blocks := 1, used }
  heap := [{ address := 4096, allocated := arenaPreallocate, used }]

theorem recycled_leftover (octet : UInt8) {used : Nat} (fits : used ≤ arenaPreallocate) : Recycled onePlace.frame (leftover octet used) := by
  have one : ∀ {P : Block → Prop}, P { address := 4096, allocated := arenaPreallocate, used } → ∀ block ∈ (leftover octet used).heap, P block := by
    intro P here block there
    rw [List.mem_singleton.mp there]
    exact here
  have small : arenaPreallocate < 2 ^ 62 := by decide
  refine ⟨⟨⟨rfl, rfl⟩, rfl, List.pairwise_singleton .., one ⟨fits, ?_⟩, small⟩, Or.inr rfl, one (Or.inl ?_), one ?_⟩
  · exact Nat.le_of_lt (Nat.lt_trans small (by decide))
  · exact (by decide : 4096 + (24 + 102400) ≤ 2 ^ 20)
  · exact (by decide : 4096 + (24 + 102400) < 2 ^ 64)

theorem sameBlocks_leftover : SameBlocks (leftover 0 0) (leftover 255 100) := rfl

/-- A request with the parameter `A=B` and two octets of data, in buffers that end inside of records. -/
def smallRequest : List (List UInt8) :=
  [[1, 1, 0, 1, 0, 8, 0, 0, 0, 1, 0, 0, 0, 0, 0, 0, 1, 4], [0, 1, 0, 4, 2, 0, 1, 1, 65], [66, 0, 0, 1, 4, 0, 1, 0, 0, 0, 0],
    [1, 5, 0, 1, 0, 2, 1, 0, 72], [105, 0, 1, 5, 0, 1, 0, 0, 0, 0]]

theorem session_independent_small_request :
    (session onePlace fresh smallRequest (leftover 0 0)).1 = (session onePlace fresh smallRequest (leftover 255 100)).1 ∧
      (session onePlace fresh smallRequest (leftover 0 0)).2.sent = (session onePlace fresh smallRequest (leftover 255 100)).2.sent ∧
      (session onePlace fresh smallRequest (leftover 0 0)).2.written = (session onePlace fresh smallRequest (leftover 255 100)).2.written ∧
      ∀ address, (session onePlace fresh smallRequest (leftover 0 0)).2.written address = true →
        (session onePlace fresh smallRequest (leftover 0 0)).2.memory address =
          (session onePlace fresh smallRequest (leftover 255 100)).2.memory address :=
  @session_independent onePlace (leftover 0 0) (leftover 255 100) sound_onePlace (recycled_leftover 0 (by decide))
    (recycled_leftover 255 (by decide)) sameBlocks_leftover fresh fresh smallRequest

-- The response that is sent from memory full of something else.
example : (session onePlace fresh [[1, 1, 0, 1, 0, 0, 0, 0], [1, 4, 0, 1, 0, 0, 0, 0], [1, 5, 0, 1, 0, 0, 0, 0]]
    (leftover 255 100)).2.sent.map (fun buffers => buffers[1]?) = [some (octetsOf "Content-Type: text/plain\r\n\r\nOK\n")] := by
  decide +kernel

end Cpptrw.Leftover
