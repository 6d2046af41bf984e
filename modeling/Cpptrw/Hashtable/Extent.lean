import Cpptrw.Hashtable.FailedInsertion

/-!
# What a call asks for

Which requests `sl_hashtable_set` makes depends on little of the table: its
size, the number of its nodes and whether the key is among them. That is its
extent, and what the allocator answers decides what becomes of it and of the
assignment.
-/

namespace Cpptrw.Hashtable

open Lib Arena Prog

variable {P : Platform} {V : Type}

/-- What the requests for a table depend on. -/
structure Extent where
  preallocate : Nat
  resize : Bool
  size : Nat
  known : Finset (List UInt8)
  deriving DecidableEq

def extent (t : Table V) : Extent := ⟨t.preallocate, t.resize, t.size, (t.buckets.flatten.map Bucket.key).toFinset⟩

/-- What becomes of a call: whether its assignment is made, and what is left. -/
structure Answered (P : Platform) where
  made : Bool
  extent : Extent
  state : P.State

namespace Extent

/-- The request for the first array, if there is none. -/
def arrayRequests (e : Extent) : List Nat := if e.size = 0 then [sizeofPointer * e.preallocate] else []

def provided (e : Extent) : Extent := if e.size = 0 then { e with size := e.preallocate } else e

/-- With one node more the load asks for a larger table. -/
def loaded (e : Extent) : Bool := e.resize && maxLoad ≤ wrap64 (wrap64 (e.known.card + 1) * 100) / e.size

/-- The requests for a larger array and the nodes in it, if one node more asks for it. -/
def loadRequests (e : Extent) : List Nat :=
  if e.loaded then sizeofPointer * (2 * e.size) :: List.replicate (e.known.card + 1) sizeofBucket else []

/-- A new node, and a larger array if there is one. -/
def linked (e : Extent) (key : List UInt8) (grown : Bool) : Extent :=
  { e with known := insert key e.known, size := if e.loaded && grown then 2 * e.size else e.size }

/-- The end of a call, when there is an array. -/
def link (P : Platform) (e : Extent) (key : List UInt8) (s : P.State) : Answered P :=
  let node := P.meets [sizeofBucket] s
  let larger := P.meets e.loadRequests node.2
  if key ∈ e.known then ⟨true, e, s⟩
  else if node.1 then ⟨true, e.linked key larger.1, larger.2⟩
  else ⟨false, e, node.2⟩

/-- A call for this key. -/
def assign (P : Platform) (e : Extent) (key : List UInt8) (s : P.State) : Answered P :=
  let array := P.meets e.arrayRequests s
  if array.1 then e.provided.link P key array.2 else ⟨false, e, array.2⟩

end Extent

/-! ## Tables and their extents -/

variable {t : Table V} {assignments : List (List UInt8 × V)}

theorem Refines.known (h : Refines t assignments) : (extent t).known = (assignments.map Prod.fst).toFinset := by
  ext key
  rw [extent, List.mem_toFinset, List.mem_toFinset, h.holding.keys]

theorem Refines.card_known (h : Refines t assignments) : (extent t).known.card = t.buckets.flatten.length := by
  rw [extent, List.toFinset_card_of_nodup h.holding.distinct, List.length_map]

theorem Refines.extent_provided (h : Refines t assignments) : extent (Hashtable.provided t) = (extent t).provided := by
  by_cases none : t.size = 0
  · simp [extent, Hashtable.provided, Extent.provided, none, h.empty none]
  · simp [extent, Hashtable.provided, Extent.provided, none]

theorem Refines.loaded_extent (h : Refines t assignments) : Hashtable.loaded t = (extent t).loaded := by
  have count : wrap64 (t.count + 1) = wrap64 (t.buckets.flatten.length + 1) := by
    rw [h.count, wrap64, wrap64, wrap64, Nat.mod_add_mod]
  rw [Hashtable.loaded, needsResize, Extent.loaded, h.card_known, count]
  rfl

theorem Refines.loadRequests_extent (h : Refines t assignments) : Hashtable.loadRequests t = (extent t).loadRequests := by
  rw [Hashtable.loadRequests, Extent.loadRequests, h.loaded_extent, h.card_known]
  rfl

/-- An assignment to a known key leaves the keys, and any other brings one in. -/
theorem known_snoc (assignments : List (List UInt8 × V)) (key : List UInt8) (value : V) :
    ((assignments ++ [(key, value)]).map Prod.fst).toFinset = insert key (assignments.map Prod.fst).toFinset := by
  ext other
  simp

/-- Behind the array: the key is overwritten or linked. -/
theorem link_run (h : Refines t assignments) (laid : Laid t.size t.buckets) {key : List UInt8} {chain : List (Bucket V)}
    (found : t.buckets[slot (computeHash key) t.size]? = some chain)
    (new : key ∉ t.buckets.flatten.map Bucket.key) (value : V) (s : P.State) :
    ∃ r, (append t (computeHash key) key value chain : Prog P _) s = .ok (r, ((extent t).link P key s).state) ∧
      extent r.2 = ((extent t).link P key s).extent ∧
      (((extent t).link P key s).made = true → Refines r.2 (assignments ++ [(key, value)])) ∧
      (((extent t).link P key s).made = false → r.2 = t) := by
  have missing : key ∉ (extent t).known := by rwa [extent, List.mem_toFinset]
  obtain ⟨r, s', run, outcome⟩ := append_run (P := P) h laid found new s
  unfold Extent.link
  rw [if_neg missing]
  rcases outcome with ⟨refused, rfl, rfl⟩ | ⟨met, linked⟩
  · rw [refused]
    exact ⟨_, run, rfl, nofun, fun _ => rfl⟩
  · have answer := linked.met
    rw [h.loadRequests_extent] at answer
    rw [met, if_pos rfl, answer]
    refine ⟨r, run, ?_, fun _ => linked.assigned, nofun⟩
    rw [Extent.mk.injEq]
    refine ⟨linked.kept.1, linked.kept.2, ?_, ?_⟩
    · have size := linked.size
      rwa [h.loaded_extent] at size
    · have known := linked.assigned.known
      rwa [known_snoc, ← h.known] at known

/-- A table whose array is refused has no keys. -/
theorem Refines.unknown (h : Refines t assignments) {s : P.State} (refused : (P.meets (extent t).arrayRequests s).1 = false)
    (key : List UInt8) : key ∉ assignments.map Prod.fst := by
  by_cases none : t.size = 0
  · rw [← h.holding.keys, h.empty none]
    simp
  · rw [Extent.arrayRequests, if_neg (show ¬(extent t).size = 0 from none)] at refused
    cases refused

/-- **One call**, by its answers. -/
theorem set_extent (h : Refines t assignments) (key : List UInt8) (value : V) (s : P.State) :
    ∃ r, (set t (some key) value : Prog P _) s = .ok (r, ((extent t).assign P key s).state) ∧
      extent r.2 = ((extent t).assign P key s).extent ∧
      (((extent t).assign P key s).made = true → Refines r.2 (assignments ++ [(key, value)])) ∧
      (((extent t).assign P key s).made = false → Refines r.2 assignments ∧ key ∉ assignments.map Prod.fst) := by
  obtain ⟨refines, laid⟩ := h.provided
  have requests : arrayRequests t = (extent t).arrayRequests := rfl
  unfold set Extent.assign
  rw [bind_apply, provide_run h s, requests]
  by_cases array : (P.meets (extent t).arrayRequests s).1 = true
  · obtain ⟨chain, found, ⟨chain', overwritten, mem, assigned⟩ | ⟨missing, new⟩⟩ := refines.search laid key value
    · simp only [array, if_true, found, overwritten, ← h.extent_provided]
      have known : key ∈ (extent (provided t)).known := List.mem_toFinset.mpr mem
      have keys := assigned.known
      rw [known_snoc, ← refines.known, Finset.insert_eq_of_mem known] at keys
      unfold Extent.link
      rw [if_pos known]
      refine ⟨_, rfl, ?_, fun _ => assigned, nofun⟩
      rw [Extent.mk.injEq]
      exact ⟨rfl, rfl, rfl, keys⟩
    · simp only [array, if_true, found, missing, ← h.extent_provided]
      obtain ⟨r, run, left, made, refused⟩ := link_run (P := P) refines laid found new value (P.meets (extent t).arrayRequests s).2
      refine ⟨r, run, left, made, fun none => ?_⟩
      rw [refused none]
      exact ⟨refines, fun known => new ((refines.holding.keys key).mpr known)⟩
  · have refused : (P.meets (extent t).arrayRequests s).1 = false := Bool.eq_false_iff.mpr array
    simp only [refused, Bool.false_eq_true, if_false]
    exact ⟨_, rfl, rfl, nofun, fun _ => ⟨h, h.unknown refused key⟩⟩

end Cpptrw.Hashtable
