import Cpptrw.Leftover.Connection
import Cpptrw.Lib.Realization

/-!
# Objects in the arena

A region is seen as an object here: its start, and its octets as far as they
are known. The objects that the program holds lie in regions of their own, and
the platform of a setting is its arena, so that a program over values that runs
on it asks `malloc` for exactly what the program in memory does. There is a
rule for each operation on memory.
-/

namespace Cpptrw.Leftover

open Lib Arena

/-! ## Records -/

/-- Fields, one behind the other. -/
def record (fields : List (List UInt8)) : Buffer := fields.flatten.map some

/-- Where a field begins. -/
def offsetOf (fields : List (List UInt8)) (i : Nat) : Nat := (fields.take i).flatten.length

variable {fields : List (List UInt8)} {i : Nat} {field octets : List UInt8}

theorem record_split (here : fields[i]? = some field) :
    record fields = (fields.take i).flatten.map some ++ (field.map some ++ (fields.drop (i + 1)).flatten.map some) := by
  obtain ⟨inside, same⟩ := List.getElem?_eq_some_iff.mp here
  rw [record, ← List.map_append, ← List.map_append]
  conv_lhs => rw [← List.take_append_drop i fields, List.drop_eq_getElem_cons inside, same]
  rw [List.flatten_append, List.flatten_cons]

theorem record_field (here : fields[i]? = some field) : ((record fields).drop (offsetOf fields i)).take field.length = field.map some := by
  have front : offsetOf fields i = ((fields.take i).flatten.map some).length := (List.length_map ..).symm
  have length : field.length = (field.map some).length := (List.length_map ..).symm
  rw [record_split here, front, List.drop_left, length, List.take_left]

theorem record_write (here : fields[i]? = some field) (same : octets.length = field.length) :
    (record fields).write (offsetOf fields i) octets = record (fields.set i octets) := by
  obtain ⟨inside, -⟩ := List.getElem?_eq_some_iff.mp here
  have there : (fields.set i octets)[i]? = some octets := List.getElem?_set_self inside
  have front : offsetOf fields i = ((fields.take i).flatten.map some).length := (List.length_map ..).symm
  rw [record_split here, record_split there, front, Buffer.write_behind _ _ (by rw [List.length_map, same]),
    List.take_set_of_le (Nat.le_refl i), List.drop_set_of_lt (Nat.lt_succ_self i)]

theorem length_record (fields : List (List UInt8)) : (record fields).length = fields.flatten.length := List.length_map ..

/-! ## Objects -/

structure Object where
  start : Nat
  contents : Buffer

namespace Object

def region (o : Object) : Region := ⟨o.start, o.contents.length⟩

/-- The octets of the object are in memory, as far as they are known. -/
def In (m : Memory) (o : Object) : Prop := ∀ i octet, o.contents[i]? = some (some octet) → m (o.start + i) = octet

variable {m : Memory} {o : Object} {a start offset : Nat} {contents : Buffer}

theorem In.read (h : o.In m) (content : (o.contents.drop offset).take octets.length = octets.map some) :
    m.read (o.start + offset) octets.length = octets := by
  apply List.ext_getElem (Memory.length_read ..)
  intro j _ inside
  have cell : ((o.contents.drop offset).take octets.length)[j]? = some (some octets[j]) := by
    rw [content, List.getElem?_map, List.getElem?_eq_getElem inside]
    rfl
  rw [List.getElem?_take_of_lt inside, List.getElem?_drop] at cell
  have there := h _ _ cell
  simpa [Memory.read, Nat.add_assoc] using there

theorem In.write (h : In m ⟨a, contents⟩) (inside : offset + octets.length ≤ contents.length) :
    In (m.write (a + offset) octets) ⟨a, contents.write offset octets⟩ := by
  intro j octet cell
  dsimp only at cell ⊢
  rw [Buffer.getElem?_write inside] at cell
  rw [Memory.write]
  by_cases within : offset ≤ j ∧ j < offset + octets.length
  · rw [if_pos within, Option.map_eq_some_iff] at cell
    obtain ⟨octet', there, same⟩ := cell
    cases same
    rw [if_pos (by omega), show a + j - (a + offset) = j - offset by omega, List.getD_eq_getElem?_getD, there]
    rfl
  · rw [if_neg within] at cell
    rw [if_neg (by omega)]
    exact h j octet cell

theorem In.write_other (h : o.In m) (apart : o.region.Disjoint ⟨start, octets.length⟩) : o.In (m.write start octets) := by
  intro j octet cell
  have inside := (List.getElem?_eq_some_iff.mp cell).1
  simp only [region, Region.Disjoint] at apart
  rw [Memory.write_outside (by omega)]
  exact h j octet cell

end Object

/-! ## The arena as a platform -/

/-- What a program over values has of a world. -/
structure Resources where
  arena : SlArena
  heap : Heap
  calls : Nat := 0
  sent : List (List (List UInt8)) := []

def World.resources (w : World) : Resources := ⟨w.arena, w.heap, w.calls, w.sent⟩

/-- Memory is asked for in the arena, and given back when a slot is initialised. -/
def arenaPlatform (S : Setting) : Platform where
  State := Resources
  allocate r size :=
    match Arena.allocate (S.malloc r.calls r.heap) r.arena r.heap size with
    | none => (false, r)
    | some (buffer, arena, heap) => (buffer.isSome, { r with arena, heap, calls := r.calls + 1 })
  rewind r :=
    match restart r.arena r.heap with
    | none => r
    | some (arena, heap) => { arena, heap }
  writev r buffers := (S.writev r.sent.length buffers, { r with sent := r.sent ++ [buffers] })

/-- There is a region for the object, which is not at `NULL`. -/
def Object.Placed (S : Setting) (w : World) (o : Object) : Prop := o.start ≠ 0 ∧ o.start < 2 ^ 64 ∧ o.region ∈ w.known S

/-- Objects in regions of their own. -/
abbrev Apart (objects : List Object) : Prop := objects.Pairwise fun o o' => o.region.Disjoint o'.region

/-- **What is held in a world**: the objects are there, each in its own region as long as it is owned. -/
structure Laid (S : Setting) (known : Set Object) (owned : List Object) (w : World) : Prop where
  good : Good S (fun _ => none) w
  placed : ∀ o, o ∈ known ∨ o ∈ owned → o.Placed S w
  there : ∀ o, o ∈ known ∨ o ∈ owned → o.In w.memory
  apart : Apart owned
  away : ∀ o ∈ owned, ∀ o' ∈ known, o.region.Disjoint o'.region

variable {S : Setting} {known : Set Object} {owned : List Object} {w : World} {o : Object} {a size offset : Nat} {contents : Buffer}

namespace Laid

theorem perm {owned' : List Object} (same : owned.Perm owned') (h : Laid S known owned w) : Laid S known owned' w := by
  refine ⟨h.good, fun o there => h.placed o (there.imp id same.mem_iff.mpr), fun o there => h.there o (there.imp id same.mem_iff.mpr), ?_,
    fun o there => h.away o (same.mem_iff.mpr there)⟩
  exact (same.pairwise_iff fun {_ _} => Region.Disjoint.symm).mp h.apart

theorem forget {rest : List Object} (h : Laid S known (owned ++ rest) w) : Laid S known owned w := by
  have left : ∀ {o}, o ∈ owned → o ∈ owned ++ rest := List.mem_append_left rest
  exact ⟨h.good, fun o there => h.placed o (there.imp id left), fun o there => h.there o (there.imp id left),
    (List.pairwise_append.mp h.apart).1, fun o there => h.away o (left there)⟩

theorem share (h : Laid S known (o :: owned) w) : Laid S (insert o known) owned w := by
  have either : ∀ {o'}, o' ∈ insert o known ∨ o' ∈ owned → o' ∈ known ∨ o' ∈ o :: owned := by
    rintro o' ((rfl | old) | there)
    · exact Or.inr List.mem_cons_self
    · exact Or.inl old
    · exact Or.inr (List.mem_cons_of_mem _ there)
  obtain ⟨first, rest⟩ := List.pairwise_cons.mp h.apart
  refine ⟨h.good, fun o' there => h.placed o' (either there), fun o' there => h.there o' (either there), rest, ?_⟩
  rintro o' there o'' (rfl | old)
  · exact (first o' there).symm
  · exact h.away o' (List.mem_cons_of_mem _ there) o'' old

theorem unlearn {known' : Set Object} (grows : known ⊆ known') (h : Laid S known' owned w) : Laid S known owned w := by
  have either : ∀ {o}, o ∈ known ∨ o ∈ owned → o ∈ known' ∨ o ∈ owned := fun there => there.imp (fun old => grows old) id
  exact ⟨h.good, fun o there => h.placed o (either there), fun o there => h.there o (either there), h.apart,
    fun o there o' old => h.away o there o' (grows old)⟩

/-- Objects that are known and lie apart, and the first ones of those that are owned. -/
theorem apart_append {others objects rest frame : List Object} (h : Laid S known (objects ++ rest ++ frame) w)
    (old : ∀ o ∈ others, o ∈ known) (apart : Apart others) : Apart (others ++ objects) := by
  rw [List.append_assoc] at h
  refine List.pairwise_append.mpr ⟨apart, (List.pairwise_append.mp h.apart).1, fun o there o' new => ?_⟩
  exact (h.away o' (List.mem_append_left _ new) o (old o there)).symm

/-- The objects are laid in another world if they are there. -/
theorem carry {w' : World} (h : Laid S known owned w) (good : Good S (fun _ => none) w')
    (kept : ∀ o, o ∈ known ∨ o ∈ owned → o.Placed S w' ∧ o.In w'.memory) : Laid S known owned w' :=
  ⟨good, fun o there => (kept o there).1, fun o there => (kept o there).2, h.apart, h.away⟩

/-- One more object, in a region of its own. -/
theorem cons (h : Laid S known owned w) (placed : o.Placed S w) (here : o.In w.memory)
    (apart : ∀ o', o' ∈ known ∨ o' ∈ owned → o.region.Disjoint o'.region) : Laid S known (o :: owned) w := by
  refine ⟨h.good, fun o' there => ?_, fun o' there => ?_, ?_, ?_⟩
  · rcases there with old | there
    · exact h.placed o' (Or.inl old)
    · rcases List.mem_cons.mp there with rfl | there
      · exact placed
      · exact h.placed o' (Or.inr there)
  · rcases there with old | there
    · exact h.there o' (Or.inl old)
    · rcases List.mem_cons.mp there with rfl | there
      · exact here
      · exact h.there o' (Or.inr there)
  · exact List.pairwise_cons.mpr ⟨fun o' there => apart o' (Or.inr there), h.apart⟩
  · intro o' there o'' old
    rcases List.mem_cons.mp there with rfl | there
    · exact apart o'' (Or.inl old)
    · exact h.away o' there o'' old

/-- An object that is owned is in a region of its own. -/
theorem alone (h : Laid S known (o :: owned) w) : ∀ o', o' ∈ known ∨ o' ∈ owned → o.region.Disjoint o'.region := by
  rintro o' (old | there)
  · exact h.away o List.mem_cons_self o' old
  · exact (List.pairwise_cons.mp h.apart).1 o' there

theorem tail (h : Laid S known (o :: owned) w) : Laid S known owned w := (h.perm List.perm_append_comm : Laid S known (owned ++ [o]) w).forget

theorem inBounds (h : Laid S known owned w) (here : o ∈ known ∨ o ∈ owned) (fits : offset + size ≤ o.contents.length) :
    o.start ≠ 0 ∧ InBounds S w o.start offset size := by
  obtain ⟨valid, -, region⟩ := h.placed o here
  exact ⟨valid, o.region, region, rfl, fits⟩

end Laid

/-- The layout of a world. -/
def layout (S : Setting) : Layout World Object (arenaPlatform S) where
  platform := World.resources
  Holds := Laid S
  perm := Laid.perm
  forget := Laid.forget
  share := Laid.share
  unlearn := Laid.unlearn

/-! ## Operations -/

/-- What is known of an object can be loaded. -/
theorem looks_load (here : o ∈ known ∨ o ∈ owned) (length : octets.length = size)
    (content : (o.contents.drop offset).take size = octets.map some) :
    (layout S).Looks known owned (load S o.start offset size) octets := by
  intro w frame h
  subst length
  have here' : o ∈ known ∨ o ∈ owned ++ frame := here.imp id (List.mem_append_left frame)
  unfold load
  split
  · rename_i none
    rw [List.eq_nil_of_length_eq_zero none]
  · rename_i some
    have fits : offset + octets.length ≤ o.contents.length := by
      have := congrArg List.length content
      rw [List.length_take, List.length_drop, List.length_map] at this
      omega
    obtain ⟨valid, bounds⟩ := h.inBounds here' fits
    rw [if_neg valid, if_pos bounds, (h.there o here').read content]

/-- The first octets of an object. -/
theorem looks_front {back : Buffer} (here : (⟨a, octets.map some ++ back⟩ : Object) ∈ known ∨ (⟨a, octets.map some ++ back⟩ : Object) ∈ owned)
    (length : octets.length = size) : (layout S).Looks known owned (load S a 0 size) octets := by
  refine looks_load here length ?_
  have front : (octets.map some).length = size := (List.length_map ..).trans length
  rw [List.drop_zero, ← front, List.take_left]

/-- What is owned can be replaced. -/
theorem updates_store (inside : offset + octets.length ≤ contents.length) :
    (layout S).Updates known [⟨a, contents⟩] (store S a offset octets) [⟨a, contents.write offset octets⟩] := by
  intro w frame h
  have here : (⟨a, contents⟩ : Object) ∈ known ∨ (⟨a, contents⟩ : Object) ∈ [⟨a, contents⟩] ++ frame := Or.inr List.mem_cons_self
  obtain ⟨valid, bounds⟩ := h.inBounds here inside
  unfold store
  by_cases none : octets = []
  · rw [if_pos none]
    refine ⟨w, rfl, rfl, ?_⟩
    rw [none, Buffer.write_nil]
    exact h
  · rw [if_neg none, if_neg valid, if_pos bounds]
    refine ⟨_, rfl, rfl, ?_⟩
    have region : (⟨a, contents.write offset octets⟩ : Object).region = (⟨a, contents⟩ : Object).region := by
      rw [Object.region, Object.region, Buffer.length_write inside]
    have target : (⟨a + offset, octets.length⟩ : Region).Within (⟨a, contents⟩ : Object).region := by
      simp only [Region.Within, Object.region]
      omega
    have rest : Laid S known frame (w.put (a + offset) octets) := by
      refine h.tail.carry (h.good.put bounds (fun _ there => by cases there)) fun o there => ?_
      have apart := (h.alone o there).symm.mono (.refl _) target
      exact ⟨h.tail.placed o there, (h.tail.there o there).write_other apart⟩
    apply rest.cons
    · rw [Object.Placed, region]
      exact h.placed _ here
    · exact (h.there _ here).write inside
    · exact fun o there => region.symm ▸ h.alone o there

/-- The pointer that an allocation returns, and the answer of the platform. -/
def Allocated (known : Set Object) (owned : List Object) (size : Nat) (known' : Set Object) (owned' : List Object) (pointer : Nat)
    (met : Bool) : Prop :=
  known' = known ∧ (met = false ∧ pointer = 0 ∧ owned' = owned ∨
    met = true ∧ pointer ≠ 0 ∧ pointer < 2 ^ 64 ∧ owned' = ⟨pointer, Buffer.fresh size⟩ :: owned)

/-- **Allocation.** -/
theorem realizes_allocate {purpose : Purpose} (sound : S.Sound) (requestable : Requestable size) :
    (layout S).Realizes known owned (allocate S purpose size) (Prog.allocate size) Layout.Any (Allocated known owned size) := by
  intro w frame met t h run _
  obtain ⟨buffer, arena, heap, returns, -⟩ := h.good.sound.allocate (sound.fresh w.calls w.heap) requestable
  have grown := h.good.grown sound requestable returns
  have answer : (buffer.isSome, (⟨arena, heap, w.calls + 1, w.sent⟩ : Resources)) = (met, t) := by
    refine Except.ok.inj (Eq.trans ?_ run)
    simp only [Prog.allocate, arenaPlatform, layout, World.resources, returns]
  obtain ⟨rfl, rfl⟩ := Prod.mk.inj answer
  unfold allocate
  rw [returns]
  cases buffer with
  | none =>
    refine ⟨0, _, known, owned, rfl, rfl, subset_rfl, ⟨grown w.purposes, h.placed, h.there, h.apart, h.away⟩, rfl, Or.inl ⟨rfl, rfl, rfl⟩⟩
  | some pointer =>
    obtain ⟨-, valid, small⟩ := h.good.grown_raw sound requestable returns
    -- the new region is none of the others
    have apart : ∀ region ∈ w.known S, (⟨pointer, size⟩ : Region).Disjoint region :=
      (List.pairwise_cons.mp ((grown w.purposes).pairwise_known : (⟨pointer, size⟩ :: w.known S).Pairwise Region.Disjoint)).1
    have region : (⟨pointer, Buffer.fresh size⟩ : Object).region = ⟨pointer, size⟩ := by
      simp [Object.region, Buffer.fresh]
    have others := h.carry (grown (purpose :: w.purposes)) fun o there =>
      ⟨(h.placed o there).imp_right fun p => p.imp_right (List.mem_cons_of_mem (⟨pointer, size⟩ : Region)), h.there o there⟩
    refine ⟨pointer, _, known, _, rfl, rfl, subset_rfl, ?_, rfl, Or.inr ⟨rfl, valid, small, rfl⟩⟩
    apply others.cons
    · exact ⟨valid, small, region ▸ List.mem_cons_self⟩
    · -- nothing is known of its octets
      intro i octet cell
      rw [Buffer.fresh, List.getElem?_replicate] at cell
      split at cell <;> cases cell
    · exact fun o there => region.symm ▸ apart _ (h.placed o there).2.2

/-! ## Fields -/

theorem looks_field (here : o ∈ known ∨ o ∈ owned) (contents : o.contents = record fields) (there : fields[i]? = some field)
    (place : offset = offsetOf fields i) (length : field.length = size) :
    (layout S).Looks known owned (load S o.start offset size) field := by
  refine looks_load here length ?_
  rw [contents, place, ← length, record_field there]

/-- A field of eight octets. -/
theorem looks_load64 (here : o ∈ known ∨ o ∈ owned) (contents : o.contents = record fields) {value : Nat}
    (there : fields[i]? = some (toOctets 8 value)) (place : offset = offsetOf fields i) (small : value < 2 ^ 64) :
    (layout S).Looks known owned (load64 S o.start offset) value := by
  refine (looks_field here contents there place (length_toOctets 8 value)).bind ?_
  rw [ofOctets_toOctets, show 256 ^ 8 = 2 ^ 64 by decide, Nat.mod_eq_of_lt small]
  exact Layout.Looks.pure

/-- A field of four octets. -/
theorem looks_load32 (here : o ∈ known ∨ o ∈ owned) (contents : o.contents = record fields) {value : Nat}
    (there : fields[i]? = some (toOctets 4 value)) (place : offset = offsetOf fields i) (small : value < 2 ^ 32) :
    (layout S).Looks known owned (load32 S o.start offset) value := by
  refine (looks_field here contents there place (length_toOctets 4 value)).bind ?_
  rw [ofOctets_toOctets, show 256 ^ 4 = 2 ^ 32 by decide, Nat.mod_eq_of_lt small]
  exact Layout.Looks.pure

/-- A field is replaced. -/
theorem updates_field (there : fields[i]? = some field) (place : offset = offsetOf fields i) (same : octets.length = field.length) :
    (layout S).Updates known [⟨a, record fields⟩] (store S a offset octets) [⟨a, record (fields.set i octets)⟩] := by
  have inside : offsetOf fields i + octets.length ≤ (record fields).length := by
    rw [same, record_split there, offsetOf]
    simp only [List.length_append, List.length_map]
    omega
  have update := @updates_store octets S known a _ (record fields) inside
  rw [record_write there same] at update
  rwa [place]

/-- All of an object is replaced; a record is stored so. -/
theorem updates_whole (length : contents.length = octets.length) :
    (layout S).Updates known [⟨a, contents⟩] (store S a 0 octets) [⟨a, octets.map some⟩] := by
  have update := @updates_store octets S known a 0 contents (by omega)
  rwa [Buffer.write_whole length] at update

/-- What is stored behind a front replaces as much of the rest. -/
theorem updates_behind {front tail : Buffer} (length : offset = front.length) (fits : octets.length ≤ tail.length) :
    (layout S).Updates known [⟨a, front ++ tail⟩] (store S a offset octets) [⟨a, front ++ (octets.map some ++ tail.drop octets.length)⟩] := by
  have same : (tail.take octets.length).length = octets.length := List.length_take_of_le fits
  have inside : offset + octets.length ≤ (front ++ tail).length := by
    rw [length, List.length_append]
    omega
  have update := @updates_store octets S known a offset (front ++ tail) inside
  rw [length] at update ⊢
  rwa [← List.take_append_drop octets.length tail, Buffer.write_behind _ _ same, List.take_append_drop] at update

/-- Nothing is stored. -/
theorem updates_nil (a offset : Nat) : (layout S).Updates known owned (store S a offset []) owned :=
  fun w _ h => ⟨w, if_pos rfl, rfl, h⟩

end Cpptrw.Leftover
