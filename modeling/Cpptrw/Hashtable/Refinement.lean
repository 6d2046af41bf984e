import Cpptrw.Hashtable.Table
import Cpptrw.Lib.LastValue

/-!
# The hash table refines a finite map

A search by `set` looks through one chain and a search by `get` through all of
them, so both agree only as long as every node is in the chain of its hash;
that is `Laid`. With it, a new node has a new key and an overwritten one keeps
its key, which is all that `Holding` asks for, and a resize makes the same
nodes anew in another order.
-/

namespace Cpptrw.Hashtable

open Lib Arena Prog

variable {P : Platform} {V : Type}

/-! ## Keys and slots -/

theorem sameOctets_iff : ∀ {a b : List UInt8}, a.length = b.length → (sameOctets a b = true ↔ a = b)
  | [], [], _ => by simp [sameOctets]
  | a :: as, b :: bs, length => by
    have tail := sameOctets_iff (show as.length = bs.length by simpa using length)
    by_cases same : a = b <;> simp [sameOctets, same, tail]

theorem areKeysEqual_iff (a b : List UInt8) : areKeysEqual a b = true ↔ a = b := by
  unfold areKeysEqual
  split
  · rename_i different
    exact ⟨nofun, fun same => absurd (congrArg List.length same) different⟩
  · rename_i same
    exact sameOctets_iff (not_not.mp same)

/-- A node with the hash of its key is the node of that key. -/
theorem isNode_iff {node : Bucket V} (hashed : node.hash = computeHash node.key) (key : List UInt8) :
    isNode (computeHash key) key node = true ↔ node.key = key := by
  rw [isNode, Bool.and_eq_true, decide_eq_true_eq, areKeysEqual_iff, hashed]
  exact ⟨fun h => h.2, fun same => ⟨by rw [same], same⟩⟩

theorem slot_lt (hash : UInt64) {k : Nat} (h : k ≤ 63) : slot hash (2 ^ k) < 2 ^ k := by
  have one := Nat.one_le_two_pow (n := k)
  have small : 2 ^ k < 2 ^ 64 := Nat.pow_lt_pow_right (by decide) (by omega)
  rw [slot, sub64_of_le small one, and_pow_sub_one]
  exact Nat.mod_lt _ one

/-! ## Chains -/

/-- The array has one chain for each slot, and every node is in the chain of its hash. -/
structure Laid (size : Nat) (buckets : List (List (Bucket V))) : Prop where
  power : ∃ k ≤ 63, size = 2 ^ k
  length : buckets.length = size
  placed : ∀ i chain, buckets[i]? = some chain → ∀ node ∈ chain, slot node.hash size = i
  hashed : ∀ node ∈ buckets.flatten, node.hash = computeHash node.key

theorem split_at {α : Type} {xs : List α} {i : Nat} {x : α} (h : xs[i]? = some x) :
    ∃ front back, xs = front ++ x :: back ∧ ∀ y, xs.set i y = front ++ y :: back := by
  obtain ⟨bound, rfl⟩ := List.getElem?_eq_some_iff.mp h
  refine ⟨xs.take i, xs.drop (i + 1), ?_, fun y => List.set_eq_take_append_cons_drop ▸ by simp [bound]⟩
  rw [← List.drop_eq_getElem_cons bound, List.take_append_drop]

/-- A node at the end of a chain is a node more. -/
theorem flatten_append_perm {buckets : List (List (Bucket V))} {i : Nat} {chain : List (Bucket V)}
    (h : buckets[i]? = some chain) (node : Bucket V) :
    (buckets.set i (chain ++ [node])).flatten.Perm (buckets.flatten ++ [node]) := by
  obtain ⟨front, back, rfl, set⟩ := split_at h
  rw [set]
  simp only [List.flatten_append, List.flatten_cons, List.append_assoc]
  exact (List.perm_append_comm.append_left chain).append_left front.flatten

namespace Laid

variable {size : Nat} {buckets : List (List (Bucket V))}

theorem empty {k : Nat} (h : k ≤ 63) : Laid (2 ^ k) (List.replicate (2 ^ k) ([] : List (Bucket V))) where
  power := ⟨k, h, rfl⟩
  length := List.length_replicate
  placed := by
    intro i chain found node mem
    rw [List.eq_of_mem_replicate (List.mem_of_getElem? found)] at mem
    cases mem
  hashed := by simp

/-- There is a chain for every hash. -/
theorem chain (h : Laid size buckets) (hash : UInt64) : ∃ chain, buckets[slot hash size]? = some chain := by
  obtain ⟨k, bound, rfl⟩ := h.power
  exact ⟨_, List.getElem?_eq_getElem (by rw [h.length]; exact slot_lt hash bound)⟩

theorem set (h : Laid size buckets) {i : Nat} {chain' : List (Bucket V)}
    (placed : ∀ node ∈ chain', slot node.hash size = i) (hashed : ∀ node ∈ chain', node.hash = computeHash node.key) :
    Laid size (buckets.set i chain') where
  power := h.power
  length := by rw [List.length_set, h.length]
  placed := by
    intro j other found node mem
    by_cases here : i = j
    · subst here
      rw [List.getElem?_set_self'] at found
      obtain ⟨_, _, rfl⟩ := Option.map_eq_some_iff.mp found
      exact placed node mem
    · rw [List.getElem?_set_ne here] at found
      exact h.placed j other found node mem
  hashed := by
    intro node mem
    obtain ⟨chain, inside, here⟩ := List.mem_flatten.mp mem
    rcases List.mem_or_eq_of_mem_set inside with old | rfl
    · exact h.hashed node (List.mem_flatten.mpr ⟨chain, old, here⟩)
    · exact hashed node here

/-- One more node in its own chain. -/
theorem append (h : Laid size buckets) {node : Bucket V} {chain : List (Bucket V)}
    (found : buckets[slot node.hash size]? = some chain) (hashed : node.hash = computeHash node.key) :
    Laid size (buckets.set (slot node.hash size) (chain ++ [node])) := by
  have old : ∀ other ∈ chain, other ∈ buckets.flatten :=
    fun other mem => List.mem_flatten.mpr ⟨chain, List.mem_of_getElem? found, mem⟩
  refine h.set ?_ ?_ <;> intro other mem <;> rcases List.mem_append.mp mem with mem | mem
  · exact h.placed _ chain found other mem
  · rw [List.mem_singleton.mp mem]
  · exact h.hashed other (old other mem)
  · rw [List.mem_singleton.mp mem, hashed]

/-- The node of a key is in the chain of its hash, if anywhere. -/
theorem mem_chain (h : Laid size buckets) {key : List UInt8} {chain : List (Bucket V)}
    (found : buckets[slot (computeHash key) size]? = some chain) (mem : key ∈ buckets.flatten.map Bucket.key) :
    ∃ node ∈ chain, node.key = key := by
  obtain ⟨node, held, rfl⟩ := List.mem_map.mp mem
  have hash := h.hashed node held
  obtain ⟨other, inside, here⟩ := List.mem_flatten.mp held
  obtain ⟨i, at_⟩ := List.mem_iff_getElem?.mp inside
  have place := h.placed i other at_ node here
  rw [hash] at place
  rw [place, at_] at found
  cases found
  exact ⟨node, here, rfl⟩

end Laid

/-! ## Searching -/

theorem overwrite_some {hash : UInt64} {key : List UInt8} {value : V} {chain chain' : List (Bucket V)}
    (h : overwrite hash key value chain = some chain') :
    ∃ front node back, chain = front ++ node :: back ∧ isNode hash key node = true ∧
      chain' = front ++ { node with key, value } :: back := by
  induction chain generalizing chain' with
  | nil => cases h
  | cons node nodes ih =>
    rw [overwrite] at h
    split at h
    · rename_i here
      cases h
      exact ⟨[], node, nodes, rfl, here, rfl⟩
    · obtain ⟨rest, found, rfl⟩ := Option.map_eq_some_iff.mp h
      obtain ⟨front, node', back, rfl, here, rfl⟩ := ih found
      exact ⟨node :: front, node', back, rfl, here, rfl⟩

theorem overwrite_none {hash : UInt64} {key : List UInt8} {value : V} {chain : List (Bucket V)}
    (h : overwrite hash key value chain = none) : ∀ node ∈ chain, isNode hash key node = false := by
  induction chain with
  | nil => nofun
  | cons node nodes ih =>
    rw [overwrite] at h
    split at h
    · cases h
    · rename_i other
      rw [Option.map_eq_none_iff] at h
      intro node' mem
      rcases List.mem_cons.mp mem with rfl | mem
      · exact Bool.eq_false_iff.mpr other
      · exact ih h node' mem

/-- The table holds the map that the assignments make. -/
structure Refines (t : Table V) (assignments : List (List UInt8 × V)) : Prop where
  laid : t.size = 0 ∧ t.buckets = [] ∨ Laid t.size t.buckets
  holding : Holding Bucket.key Bucket.value t.buckets.flatten assignments
  count : t.count = wrap64 t.buckets.flatten.length
  preallocate : ∃ k ≤ 32, t.preallocate = 2 ^ k

theorem Refines.init {preallocate : Nat} (least : 1 ≤ preallocate) (most : preallocate ≤ 2 ^ 32) (resize : Bool) :
    Refines (init preallocate resize : Table V) [] where
  laid := Or.inl ⟨rfl, rfl⟩
  holding := .nil
  count := rfl
  preallocate := ⟨_, Nat.size_le.mpr (by omega), (pow2Size_of_range least (by omega)).1⟩

/-- **`sl_hashtable_get`** reads the map. -/
theorem Refines.get {t : Table V} {assignments : List (List UInt8 × V)} (h : Refines t assignments) (key : List UInt8) :
    get t key = lastValue assignments key := by
  rw [Hashtable.get, ← List.find?_flatten]
  refine h.holding.find key fun node mem => isNode_iff ?_ key
  rcases h.laid with ⟨-, none⟩ | laid
  · rw [none] at mem
    cases mem
  · exact laid.hashed node mem

/-! ## Setting -/

theorem clearBuckets_met {size : Nat} (small : sizeofPointer * size < 2 ^ 64) :
    (clearBuckets (wrap64 (sizeofPointer * size)) size : Except Fault (List (List (Bucket V)))) =
      .ok (List.replicate size []) := by
  rw [clearBuckets, wrap64_of_lt small, if_pos (Nat.le_refl _)]

/-- Every node comes into its chain among the new ones, or one of them is refused. -/
theorem ensures_moveNodes {size : Nat} (nodes : List (Bucket V))
    (hashed : ∀ node ∈ nodes, node.hash = computeHash node.key) :
    ∀ {buckets : List (List (Bucket V))} (wasted : Nat), Laid size buckets →
      Ensures (moveNodes size nodes buckets wasted : Prog P _) fun r =>
        (r.1 = false → ¬P.Succeeds) ∧ (r.1 = true → Laid size r.2.1 ∧ r.2.1.flatten.Perm (buckets.flatten ++ nodes)) := by
  induction nodes with
  | nil =>
    intro buckets wasted laid
    exact .pure ⟨nofun, fun _ => ⟨laid, by rw [List.append_nil]⟩⟩
  | cons node nodes ih =>
    intro buckets wasted laid
    obtain ⟨chain, found⟩ := laid.chain node.hash
    have mine : node.hash = computeHash node.key := hashed node (by simp)
    rw [moveNodes, found]
    dsimp only
    rw [createBucket, bind_assoc]
    apply Ensures.allocate
    · refine (ih (fun other mem => hashed other (List.mem_cons_of_mem _ mem)) _ (laid.append found mine)).mono ?_
      rintro r ⟨refused, moved⟩
      refine ⟨refused, fun done => ⟨(moved done).1, (moved done).2.trans ?_⟩⟩
      refine ((flatten_append_perm found node).append_right nodes).trans ?_
      rw [List.append_assoc, List.singleton_append]
    · exact fun refused => .pure ⟨fun _ => refused, fun done => absurd done Bool.false_ne_true⟩

/-- What every operation leaves of the size. -/
structure Grown (t t' : Table V) : Prop where
  preallocate : t'.preallocate = t.preallocate
  size : t.size ≤ t'.size
  first : t.size = 0 → t'.size = 0 ∨ t.preallocate ≤ t'.size

theorem Grown.of_size {t t' : Table V} (preallocate : t'.preallocate = t.preallocate) (size : t'.size = t.size) : Grown t t' :=
  ⟨preallocate, size.ge, fun none => Or.inl (size.trans none)⟩

theorem Grown.trans {t t' t'' : Table V} (h : Grown t t') (h' : Grown t' t'') : Grown t t'' where
  preallocate := h'.preallocate.trans h.preallocate
  size := h.size.trans h'.size
  first := by
    intro none
    rcases h.first none with none' | some'
    · exact h.preallocate ▸ h'.first none'
    · exact Or.inr (some'.trans h'.size)

/-- The size that a table is to be resized to, when its load asks for it. -/
theorem Laid.double {size : Nat} {buckets : List (List (Bucket V))} (laid : Laid size buckets) (small : maxLoad * size < 2 ^ 64) :
    pow2Size (wrap64 (size <<< 1)) = 2 * size ∧ sizeofPointer * (2 * size) < 2 ^ 64 ∧ ∃ k ≤ 62, 2 * size = 2 ^ k := by
  obtain ⟨k, -, rfl⟩ := laid.power
  have bits : k ≤ 57 := by
    by_contra large
    have := Nat.pow_le_pow_right (n := 2) (by decide) (show 58 ≤ k by omega)
    rw [maxLoad] at small
    omega
  have double : 2 * 2 ^ k = 2 ^ (k + 1) := by rw [Nat.pow_succ, Nat.mul_comm]
  refine ⟨?_, ?_, k + 1, by omega, double⟩
  · rw [Nat.shiftLeft_eq, ← Nat.pow_add, wrap64_of_lt (Nat.pow_lt_pow_right (by decide) (by omega)), pow2Size_pow (by omega), double]
  · rw [double, show sizeofPointer = 2 ^ 3 from rfl, ← Nat.pow_add]
    exact Nat.pow_lt_pow_right (by decide) (by omega)

/-- A resize keeps the nodes, whether or not it comes to its end. -/
theorem ensures_resize {t : Table V} (laid : Laid t.size t.buckets)
    (small : maxLoad * t.size < 2 ^ 64) :
    Ensures (resize t (wrap64 (t.size <<< 1)) : Prog P _) fun r =>
      (r.1 = false → ¬P.Succeeds) ∧ Laid r.2.size r.2.buckets ∧ r.2.buckets.flatten.Perm t.buckets.flatten ∧
        r.2.count = t.count ∧ Grown t r.2 := by
  obtain ⟨double, room, k, bits, power⟩ := laid.double small
  unfold resize
  rw [double]
  dsimp only
  split
  · exact .pure ⟨nofun, laid, .refl _, rfl, .of_size rfl rfl⟩
  · rename_i larger
    apply Ensures.allocate
    · rw [if_pos rfl, clearBuckets_met room, lift_ok, pure_bind]
      refine (ensures_moveNodes _ laid.hashed t.wasted (power ▸ .empty (by omega))).bind ?_
      rintro ⟨done, buckets, wasted⟩ ⟨refused, moved⟩
      cases done with
      | false => exact .pure ⟨refused, laid, .refl _, rfl, .of_size rfl rfl⟩
      | true =>
        obtain ⟨laid', perm⟩ := moved rfl
        refine .pure ⟨nofun, laid', perm.trans (by simp), rfl, rfl, ?_, fun none => ?_⟩
        · dsimp only
          omega
        · exact absurd none (by obtain ⟨j, -, size⟩ := laid.power; rw [size]; exact (Nat.two_pow_pos j).ne')
    · exact fun refused => .pure ⟨fun _ => refused, laid, .refl _, rfl, .of_size rfl rfl⟩

/-- The array is there when it is needed, or is refused. -/
theorem ensures_provide {t : Table V} {assignments : List (List UInt8 × V)}
    (h : Refines t assignments) :
    Ensures (provide t : Prog P _) fun r =>
      (r.1 = false → ¬P.Succeeds ∧ r.2 = t) ∧ (r.1 = true → Laid r.2.size r.2.buckets) ∧ Refines r.2 assignments ∧ Grown t r.2 := by
  unfold provide
  rcases h.laid with ⟨none, empty⟩ | laid
  · obtain ⟨k, bound, preallocate⟩ := h.preallocate
    have room : sizeofPointer * 2 ^ k < 2 ^ 64 := by
      rw [show sizeofPointer = 2 ^ 3 from rfl, ← Nat.pow_add]
      exact Nat.pow_lt_pow_right (by decide) (by omega)
    rw [if_pos none]
    have size : (if pow2Size t.preallocate < t.preallocate then t.preallocate else pow2Size t.preallocate) = 2 ^ k := by
      rw [preallocate, pow2Size_pow (by omega), ite_self]
    unfold allocate
    dsimp only
    rw [size]
    apply Ensures.allocate
    · rw [if_pos rfl, clearBuckets_met room, lift_ok, pure_bind]
      have holding := h.holding
      rw [empty] at holding
      refine .pure ⟨nofun, fun _ => .empty (by omega), ⟨Or.inr (.empty (by omega)), by simpa using holding, by simp [wrap64], k, bound,
        preallocate⟩, rfl, by simp [none], fun _ => Or.inr preallocate.le⟩
    · exact fun refused => .pure ⟨fun _ => ⟨refused, rfl⟩, nofun, h, .of_size rfl rfl⟩
  · obtain ⟨k, -, size⟩ := laid.power
    rw [if_neg (by rw [size]; exact (Nat.two_pow_pos k).ne')]
    exact .pure ⟨nofun, fun _ => laid, h, .of_size rfl rfl⟩

/-- A known key: its node is overwritten in place. -/
theorem Refines.overwrite {t : Table V} {assignments : List (List UInt8 × V)} (h : Refines t assignments)
    (laid : Laid t.size t.buckets) {i : Nat} {front back : List (Bucket V)} {old : Bucket V}
    (found : t.buckets[i]? = some (front ++ old :: back)) (node : Bucket V) (hash : node.hash = old.hash)
    (key : node.key = old.key) :
    Refines { t with buckets := t.buckets.set i (front ++ node :: back) } (assignments ++ [(node.key, node.value)]) := by
  have member : ∀ other ∈ front ++ old :: back, other ∈ t.buckets.flatten :=
    fun other mem => List.mem_flatten.mpr ⟨_, List.mem_of_getElem? found, mem⟩
  have split : ∀ other, other ∈ front ++ node :: back → other = node ∨ other ∈ front ++ old :: back := by
    intro other mem
    simp only [List.mem_append, List.mem_cons] at mem ⊢
    tauto
  obtain ⟨before, after, chains, set⟩ := split_at found
  have nodes : t.buckets.flatten = (before.flatten ++ front) ++ old :: (back ++ after.flatten) := by
    rw [chains]
    simp
  have nodes' : (t.buckets.set i (front ++ node :: back)).flatten =
      (before.flatten ++ front) ++ node :: (back ++ after.flatten) := by
    rw [set]
    simp
  have last : old ∈ front ++ old :: back := by simp
  refine ⟨Or.inr (laid.set ?_ ?_), ?_, ?_, h.preallocate⟩
  · intro other mem
    rcases split other mem with rfl | mem
    · rw [hash]
      exact laid.placed i _ found old last
    · exact laid.placed i _ found other mem
  · intro other mem
    rcases split other mem with rfl | mem
    · rw [hash, key]
      exact laid.hashed old (member old last)
    · exact laid.hashed other (member other mem)
  · have holding := h.holding
    rw [nodes] at holding
    rw [nodes']
    exact holding.replace node key
  · have length := h.count
    rw [nodes] at length
    rw [nodes']
    simpa using length

/-- What a call of `sl_hashtable_set` leads to: the assignment is made if it says so, and otherwise it
is made or not. -/
structure Outcome (P : Platform) (t : Table V) (assignments : List (List UInt8 × V)) (key : List UInt8) (value : V)
    (r : Bool × Table V) : Prop where
  refused : r.1 = false → ¬P.Succeeds
  assigned : r.1 = true → Refines r.2 (assignments ++ [(key, value)])
  kept : Refines r.2 assignments ∨ Refines r.2 (assignments ++ [(key, value)])
  grown : Grown t r.2

/-- A new node at the end of its chain. -/
theorem Refines.link {t : Table V} {assignments : List (List UInt8 × V)} (h : Refines t assignments)
    (laid : Laid t.size t.buckets) {key : List UInt8} (value : V) {chain : List (Bucket V)}
    (found : t.buckets[slot (computeHash key) t.size]? = some chain)
    (new : key ∉ t.buckets.flatten.map Bucket.key) :
    Refines { t with
      buckets := t.buckets.set (slot (computeHash key) t.size) (chain ++ [⟨computeHash key, key, value⟩])
      count := wrap64 (t.count + 1) } (assignments ++ [(key, value)]) := by
  let node : Bucket V := ⟨computeHash key, key, value⟩
  have perm := flatten_append_perm found node
  have nodes := perm.length_eq
  rw [List.length_append, List.length_singleton] at nodes
  refine ⟨Or.inr (@Laid.append _ _ _ laid node _ found rfl), (h.holding.insert node new).perm perm.symm, ?_, h.preallocate⟩
  change wrap64 (t.count + 1) = wrap64 (t.buckets.set (slot (computeHash key) t.size) (chain ++ [node])).flatten.length
  rw [nodes, h.count, wrap64, wrap64, wrap64, Nat.mod_add_mod]

/-- The nodes of a table, in another order. -/
theorem Refines.rearrange {t t' : Table V} {assignments : List (List UInt8 × V)} (h : Refines t assignments)
    (laid : Laid t'.size t'.buckets) (perm : t'.buckets.flatten.Perm t.buckets.flatten) (count : t'.count = t.count)
    (preallocate : t'.preallocate = t.preallocate) : Refines t' assignments where
  laid := Or.inr laid
  holding := h.holding.perm perm.symm
  count := by rw [count, perm.length_eq, h.count]
  preallocate := preallocate ▸ h.preallocate

/-- The load bounds the size by a word. -/
theorem needsResize_small {t : Table V} (load : needsResize t = true) : maxLoad * t.size < 2 ^ 64 := by
  simp only [needsResize, Bool.and_eq_true] at load
  exact (Nat.mul_le_of_le_div _ _ _ (of_decide_eq_true load.2)).trans_lt (wrap64_lt _)

/-- A new key: its node comes in, and the array may be resized. -/
theorem ensures_append {t : Table V} {assignments : List (List UInt8 × V)} (h : Refines t assignments)
    (laid : Laid t.size t.buckets) {key : List UInt8} {value : V} {chain : List (Bucket V)}
    (found : t.buckets[slot (computeHash key) t.size]? = some chain)
    (new : key ∉ t.buckets.flatten.map Bucket.key) :
    Ensures (append t (computeHash key) key value chain : Prog P _) (Outcome P t assignments key value) := by
  have linked := h.link laid value found new
  have laid' := @Laid.append _ _ _ laid ⟨computeHash key, key, value⟩ _ found rfl
  unfold append createBucket
  rw [bind_assoc]
  apply Ensures.allocate
  · rw [if_pos rfl, pure_bind]
    dsimp only
    split
    · rename_i load
      refine (ensures_resize laid' (needsResize_small load)).mono ?_
      rintro r ⟨refused, laid'', perm, count, grown⟩
      have refines := linked.rearrange laid'' perm count grown.preallocate
      exact ⟨refused, fun _ => refines, Or.inr refines, grown.preallocate, grown.size, grown.first⟩
    · exact .pure ⟨nofun, fun _ => linked, Or.inr linked, .of_size rfl rfl⟩
  · exact fun refused => .pure ⟨fun _ => refused, nofun, Or.inl h, .of_size rfl rfl⟩

/-- The search of one chain finds the key of the table, whose node is overwritten, or shows that it is new. -/
theorem Refines.search {t : Table V} {assignments : List (List UInt8 × V)} (h : Refines t assignments)
    (laid : Laid t.size t.buckets) (key : List UInt8) (value : V) :
    ∃ chain, t.buckets[slot (computeHash key) t.size]? = some chain ∧
      ((∃ chain', Hashtable.overwrite (computeHash key) key value chain = some chain' ∧ key ∈ t.buckets.flatten.map Bucket.key ∧
          Refines { t with buckets := t.buckets.set (slot (computeHash key) t.size) chain' } (assignments ++ [(key, value)])) ∨
        Hashtable.overwrite (computeHash key) key value chain = none ∧ key ∉ t.buckets.flatten.map Bucket.key) := by
  obtain ⟨chain, found⟩ := laid.chain (computeHash key)
  have member : ∀ node ∈ chain, node ∈ t.buckets.flatten :=
    fun node mem => List.mem_flatten.mpr ⟨chain, List.mem_of_getElem? found, mem⟩
  refine ⟨chain, found, ?_⟩
  cases search : Hashtable.overwrite (computeHash key) key value chain with
  | some chain' =>
    obtain ⟨front, node, back, rfl, here, rfl⟩ := overwrite_some search
    have there := member node (by simp)
    have hash := laid.hashed node there
    have same : node.key = key := (isNode_iff hash key).mp here
    have refines := h.overwrite laid found ⟨node.hash, key, value⟩ rfl same.symm
    exact Or.inl ⟨_, rfl, List.mem_map.mpr ⟨node, there, same⟩, refines⟩
  | none =>
    refine Or.inr ⟨rfl, fun known => ?_⟩
    obtain ⟨node, mem, same⟩ := laid.mem_chain found known
    have here := (isNode_iff (laid.hashed node (member node mem)) key).mpr same
    rw [overwrite_none search node mem] at here
    cases here

/-- **`sl_hashtable_set`**, with and without the memory it asks for. -/
theorem set_outcome {t : Table V} {assignments : List (List UInt8 × V)} (h : Refines t assignments)
    (key : List UInt8) (value : V) :
    Ensures (set t (some key) value : Prog P _) (Outcome P t assignments key value) := by
  unfold set
  refine (ensures_provide h).bind ?_
  rintro ⟨allocated, t'⟩ ⟨refused, provided, h', grown⟩
  cases allocated with
  | false => exact .pure ⟨fun _ => (refused rfl).1, nofun, Or.inl h', grown⟩
  | true =>
    have laid : Laid t'.size t'.buckets := provided rfl
    obtain ⟨chain, found, ⟨chain', overwritten, -, refines⟩ | ⟨missing, new⟩⟩ := h'.search laid key value
    · simp only [if_true, found, overwritten]
      exact .pure ⟨nofun, fun _ => refines, Or.inr refines, grown.trans (.of_size rfl rfl)⟩
    · simp only [if_true, found, missing]
      refine (ensures_append h' laid found new).mono fun r outcome => ?_
      exact ⟨outcome.refused, outcome.assigned, outcome.kept, grown.trans outcome.grown⟩

/-- Where memory does not run out, the assignment is made. -/
theorem ensures_set (all : P.Succeeds) {t : Table V} {assignments : List (List UInt8 × V)} (h : Refines t assignments)
    (key : List UInt8) (value : V) :
    Ensures (set t (some key) value : Prog P _) fun r =>
      r.1 = true ∧ Refines r.2 (assignments ++ [(key, value)]) := by
  refine (set_outcome h key value).mono fun r outcome => ?_
  have done : r.1 = true := by
    by_contra refused
    exact outcome.refused (Bool.eq_false_iff.mpr refused) all
  exact ⟨done, outcome.assigned done⟩

/-- A sequence of calls makes a sequence of assignments. -/
theorem ensures_setAll (all : P.Succeeds) (assignments : List (List UInt8 × V)) :
    ∀ {t : Table V} {before : List (List UInt8 × V)}, Refines t before →
      Ensures (setAll t assignments : Prog P _) fun t' => Refines t' (before ++ assignments) := by
  induction assignments with
  | nil =>
    intro t before h
    rw [List.append_nil]
    exact .pure h
  | cons assignment assignments ih =>
    intro t before h
    obtain ⟨key, value⟩ := assignment
    rw [List.append_cons]
    exact (ensures_set all h key value).bind fun r hr => ih hr.2

/-- **The hash table refines a finite map.** -/
theorem hashtable_refines_map (all : P.Succeeds) {preallocate : Nat} (least : 1 ≤ preallocate)
    (most : preallocate ≤ 2 ^ 32) (resize : Bool) {assignments : List (List UInt8 × V)}
    (few : assignments.length < 2 ^ 56) :
    Ensures (setAll (init preallocate resize) assignments : Prog P _) fun t =>
      (∀ key, get t key = lastValue assignments key) ∧
      t.count = (assignments.map Prod.fst).toFinset.card := by
  refine (ensures_setAll all assignments (.init least most resize)).mono fun t h => ?_
  rw [List.nil_append] at h
  refine ⟨h.get, ?_⟩
  have bound := List.toFinset_card_le (assignments.map Prod.fst)
  rw [List.length_map] at bound
  rw [h.count, h.holding.length_eq]
  exact wrap64_of_lt (by omega)

/-- Two keys, one of them set twice. -/
theorem hashtable_refines_map_twice :
    Ensures (setAll (init 1 true) [([65], 1), ([66], 2), ([65], 3)] : Prog Platform.ample (Table Nat)) fun t =>
      (∀ key, get t key = lastValue [([65], 1), ([66], 2), ([65], 3)] key) ∧
      t.count = (([([65], 1), ([66], 2), ([65], 3)] : List (List UInt8 × Nat)).map Prod.fst).toFinset.card :=
  hashtable_refines_map Platform.ample_succeeds (by decide) (by decide) true (by decide)

end Cpptrw.Hashtable
