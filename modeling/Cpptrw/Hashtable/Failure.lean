import Cpptrw.Hashtable.Refinement

/-!
# The hash table when memory runs out

A call of `sl_hashtable_set` may be refused the array, the node, the larger
array or any of the nodes that are made anew, and it is then abandoned where it
is. What is left is a table all the same: the old chains are only replaced
when all the nodes have been made. It holds what some of the calls assigned.
-/

namespace Cpptrw.Hashtable

open Lib Arena Prog

variable {P : Platform} {V : Type}

/-- The search in the chain of the hash alone. -/
def probe (t : Table V) (key : List UInt8) : Option V :=
  (t.buckets[slot (computeHash key) t.size]?.bind fun chain => chain.find? (isNode (computeHash key) key)).map Bucket.value

/-- **The representation** of a table that was initialised for so many slots. -/
structure Represented (preallocate : Nat) (t : Table V) : Prop where
  size : t.size = 0 ∨ (∃ k, t.size = 2 ^ k) ∧ preallocate ≤ t.size
  length : t.buckets.length = t.size
  placed : ∀ i chain, t.buckets[i]? = some chain → ∀ node ∈ chain, slot node.hash t.size = i
  hashed : ∀ node ∈ t.buckets.flatten, node.hash = computeHash node.key
  distinct : (t.buckets.flatten.map Bucket.key).Nodup
  count : t.count = t.buckets.flatten.length

theorem Refines.hashed {t : Table V} {assignments : List (List UInt8 × V)} (h : Refines t assignments) :
    ∀ node ∈ t.buckets.flatten, node.hash = computeHash node.key := by
  rcases h.laid with ⟨-, empty⟩ | laid
  · simp [empty]
  · exact laid.hashed

theorem Refines.represented {t : Table V} {assignments : List (List UInt8 × V)} (h : Refines t assignments) {preallocate : Nat}
    (roomy : t.size = 0 ∨ preallocate ≤ t.size) (few : assignments.length < 2 ^ 64) : Represented preallocate t where
  size := by
    rcases h.laid with ⟨none, -⟩ | laid
    · exact Or.inl none
    · obtain ⟨k, -, power⟩ := laid.power
      exact roomy.imp id fun large => ⟨⟨k, power⟩, large⟩
  length := by
    rcases h.laid with ⟨none, empty⟩ | laid
    · rw [none, empty]
      rfl
    · exact laid.length
  placed := by
    rcases h.laid with ⟨-, empty⟩ | laid
    · simp [empty]
    · exact laid.placed
  hashed := h.hashed
  distinct := h.holding.distinct
  count := by
    have bound := List.toFinset_card_le (assignments.map Prod.fst)
    rw [List.length_map] at bound
    rw [h.count, h.holding.length_eq]
    exact wrap64_of_lt (by omega)

/-- **The full scan and the hashed probe agree.** -/
theorem Refines.probe {t : Table V} {assignments : List (List UInt8 × V)} (h : Refines t assignments) (key : List UInt8) :
    probe t key = lastValue assignments key := by
  rcases h.laid with ⟨none, empty⟩ | laid
  · have nothing := h.get key
    rw [Hashtable.get, empty] at nothing
    rw [← nothing, Hashtable.probe, empty]
    rfl
  · obtain ⟨chain, found⟩ := laid.chain (computeHash key)
    have member : ∀ node ∈ chain, node ∈ t.buckets.flatten :=
      fun node there => List.mem_flatten.mpr ⟨chain, List.mem_of_getElem? found, there⟩
    rw [Hashtable.probe, found, Option.bind_some]
    cases search : chain.find? (isNode (computeHash key) key) with
    | some node =>
      have there := member node (List.mem_of_find?_eq_some search)
      have same := (isNode_iff (laid.hashed node there) key).mp (List.find?_some search)
      exact ((h.holding.values key node.value).mpr ⟨node, there, same, rfl⟩).symm
    | none =>
      cases value : lastValue assignments key with
      | none => rfl
      | some v =>
        have known : key ∈ t.buckets.flatten.map Bucket.key := by
          rw [h.holding.keys, ← lastValue_isSome, value]
          rfl
        obtain ⟨node, there, same⟩ := laid.mem_chain found known
        have here := (isNode_iff (laid.hashed node (member node there)) key).mpr same
        exact absurd here (List.find?_eq_none.mp search node there)

/-- **A run of calls**, some of which are refused. -/
theorem setAll_outcome (assignments : List (List UInt8 × V)) :
    ∀ {t : Table V} {before : List (List UInt8 × V)}, Refines t before →
      Ensures (setAll t assignments : Prog P _) fun t' =>
        Grown t t' ∧ ∃ made, made.Sublist assignments ∧ Refines t' (before ++ made) := by
  induction assignments with
  | nil =>
    intro t before h
    exact .pure ⟨.of_size rfl rfl, [], .slnil, by simpa using h⟩
  | cons assignment assignments ih =>
    intro t before h
    obtain ⟨key, value⟩ := assignment
    refine (set_outcome h key value).bind fun r outcome => ?_
    rcases outcome.kept with kept | assigned
    · refine (ih kept).mono fun t' ⟨grown, made, part, refines⟩ => ?_
      exact ⟨outcome.grown.trans grown, made, part.cons _, refines⟩
    · refine (ih assigned).mono fun t' ⟨grown, made, part, refines⟩ => ?_
      exact ⟨outcome.grown.trans grown, (key, value) :: made, part.cons_cons _, by simpa using refines⟩

/-- A call changes nothing for another key, whatever it returns. -/
theorem get_of_set {t : Table V} {assignments : List (List UInt8 × V)} (h : Refines t assignments) (key : List UInt8) (value : V) :
    Ensures (set t (some key) value : Prog P _) fun r => ∀ other, other ≠ key → get r.2 other = get t other := by
  refine (set_outcome h key value).mono fun r outcome other different => ?_
  rw [h.get]
  rcases outcome.kept with kept | assigned
  · exact kept.get other
  · rw [assigned.get, lastValue_snoc, if_neg (Ne.symm different)]

/-- **The table is represented whatever is refused**, `sl_hashtable_get` finds what a search of one
chain finds, and a call of `sl_hashtable_set` changes nothing for other keys. The size is not zero
when `sl_hashtable_needs_resize` divides by it, for then there is an array. -/
theorem table_represented {preallocate : Nat} (least : 1 ≤ preallocate) (most : preallocate ≤ 2 ^ 32) (resize : Bool)
    {assignments : List (List UInt8 × V)} (few : assignments.length < 2 ^ 56) :
    Ensures (setAll (init preallocate resize) assignments : Prog P _) fun t =>
      Represented (pow2Size preallocate) t ∧ (∀ key, get t key = probe t key) ∧
      (Ensures (provide t : Prog P _) fun r => r.1 = true → 0 < r.2.size) ∧
      ∀ key value, Ensures (set t (some key) value : Prog P _) fun r => ∀ other, other ≠ key → get r.2 other = get t other := by
  refine (setAll_outcome assignments (.init least most resize)).mono ?_
  rintro t ⟨grown, made, part, refines⟩
  rw [List.nil_append] at refines
  refine ⟨refines.represented (grown.first rfl) (by have := part.length_le; omega), fun key => ?_, ?_, get_of_set refines⟩
  · rw [refines.get, refines.probe]
  · refine (ensures_provide refines).mono fun r provided there => ?_
    obtain ⟨k, -, power⟩ := (provided.2.1 there).power
    rw [power]
    exact Nat.two_pow_pos k

/-- The platform on which the third request is refused. -/
def thirdRefused : Platform := Platform.refusing fun count => count = 2

theorem table_represented_refused :
    Ensures (setAll (init 1 true) [([65], 1), ([66], 2)] : Prog thirdRefused (Table Nat)) fun t =>
      Represented (pow2Size 1) t ∧ (∀ key, get t key = probe t key) ∧
      (Ensures (provide t : Prog thirdRefused _) fun r => r.1 = true → 0 < r.2.size) ∧
      ∀ key value, Ensures (set t (some key) value : Prog thirdRefused _) fun r => ∀ other, other ≠ key → get r.2 other = get t other :=
  table_represented (by decide) (by decide) true (by decide)

end Cpptrw.Hashtable
