import Cpptrw.Hashtable.FailedInsertion

/-!
# The load of the hash table

A new node raises the load by `100 / size`, which can be more than the bound in
a table of one or two slots; one doubling is enough all the same. `Balanced` is
what every call of `sl_hashtable_set` keeps in a table that may be resized, as
long as memory does not run out.
-/

namespace Cpptrw.Hashtable

open Lib Arena Prog

variable {P : Platform} {V : Type} {t : Table V} {assignments : List (List UInt8 × V)}

/-! ## The number of resizes -/

/-- A resize is counted when it comes to its end. -/
theorem returns_resize_resizes {buckets : List (List (Bucket V))} (laid : Laid t.size buckets) (small : maxLoad * t.size < 2 ^ 64) :
    Returns (resize t (wrap64 (t.size <<< 1)) : Prog P _) fun r => r.2.resizes = if r.1 then wrap64 (t.resizes + 1) else t.resizes := by
  obtain ⟨double, -, k, -, power⟩ := laid.double small
  have larger : ¬2 * t.size ≤ t.size := by
    have := Nat.two_pow_pos k
    omega
  unfold resize
  rw [double]
  dsimp only
  rw [if_neg larger]
  refine (returns_any _).bind fun met _ => ?_
  cases met with
  | false => exact returns_pure rfl
  | true =>
    rw [if_pos rfl]
    refine (returns_any _).bind fun newBuckets _ => (returns_any _).bind fun r _ => ?_
    obtain ⟨moved, newBuckets, wasted⟩ := r
    cases moved with
    | true => exact returns_pure rfl
    | false => exact returns_pure rfl

theorem returns_append_resizes (laid : Laid t.size t.buckets) (hash : UInt64) (key : List UInt8) (value : V) (chain : List (Bucket V)) :
    Returns (append t hash key value chain : Prog P _) fun r =>
      r.2.resizes = if loaded t && r.1 then wrap64 (t.resizes + 1) else t.resizes := by
  unfold append
  refine (returns_any _).bind fun bucket _ => ?_
  cases bucket with
  | none =>
    apply returns_pure
    rw [Bool.and_false]
    rfl
  | some bucket =>
    let linked : Table V := { t with buckets := t.buckets.set (slot hash t.size) (chain ++ [bucket]), count := wrap64 (t.count + 1) }
    change Returns (if needsResize linked = true then resize linked (wrap64 (t.size <<< 1)) else pure (true, linked)) _
    have flag : loaded t = needsResize linked := rfl
    split
    · rename_i load
      refine (@returns_resize_resizes P V linked _ laid (needsResize_small load)).mono fun r counted => ?_
      rw [flag, load, Bool.true_and]
      exact counted
    · rename_i light
      apply returns_pure
      rw [flag, Bool.eq_false_iff.mpr light]
      rfl

/-! ## What every call keeps -/

/-- The size is the first one, doubled by every resize, and the load is below its bound. -/
structure Balanced (first : Nat) (t : Table V) : Prop where
  size : t.size = first * 2 ^ t.resizes
  light : t.count * 100 < maxLoad * t.size

/-- A table that may be resized, with its array or without. -/
structure Growing (first : Nat) (t : Table V) (assignments : List (List UInt8 × V)) : Prop where
  refines : Refines t assignments
  resize : t.resize = true
  preallocate : t.preallocate = first
  balanced : t.size = 0 ∧ t.resizes = 0 ∨ Balanced first t

/-- The distinct keys. -/
def keys (assignments : List (List UInt8 × V)) : Finset (List UInt8) := (assignments.map Prod.fst).toFinset

theorem keys_snoc (assignments : List (List UInt8 × V)) (key : List UInt8) (value : V) :
    keys (assignments ++ [(key, value)]) = insert key (keys assignments) := by
  ext other
  simp [keys]

/-- As long as there are few keys, the count is their number. -/
theorem Refines.count_keys (h : Refines t assignments) (few : (keys assignments).card < 2 ^ 64) : t.count = (keys assignments).card := by
  rw [h.count, h.holding.length_eq]
  exact wrap64_of_lt few

theorem Growing.init {preallocate : Nat} (least : 1 ≤ preallocate) (most : preallocate ≤ 2 ^ 32) :
    Growing (pow2Size preallocate) (init preallocate true : Table V) [] :=
  ⟨.init least most true, rfl, rfl, Or.inl ⟨rfl, rfl⟩⟩

/-- The first array is not loaded. -/
theorem Growing.provided {first : Nat} (h : Growing first t assignments) : Balanced first (provided t) := by
  unfold Hashtable.provided
  split
  · rename_i none
    obtain ⟨k, -, power⟩ := h.refines.preallocate
    have pos := Nat.two_pow_pos k
    have count : t.resizes = 0 := by
      rcases h.balanced with ⟨-, zero⟩ | balanced
      · exact zero
      · have size := balanced.size
        have many := Nat.two_pow_pos t.resizes
        rw [none, ← h.preallocate, power] at size
        exact absurd size.symm (Nat.mul_pos pos many).ne'
    constructor
    · simp [count, h.preallocate]
    · dsimp only
      rw [power, maxLoad]
      omega
  · rename_i some
    exact h.balanced.resolve_left fun zero => some zero.1

theorem provided_resizes (t : Table V) : (provided t).resizes = t.resizes ∧ (provided t).resize = t.resize ∧
    (provided t).preallocate = t.preallocate := by
  unfold provided
  split <;> exact ⟨rfl, rfl, rfl⟩

/-- With one node more, the load asks for a larger table or stays below its bound. -/
theorem loaded_eq_false_iff (laid : Laid t.size t.buckets) (resize : t.resize = true) (few : t.count < 2 ^ 56) :
    loaded t = false ↔ (t.count + 1) * 100 < maxLoad * t.size := by
  obtain ⟨k, -, power⟩ := laid.power
  have pos : 0 < t.size := power ▸ Nat.two_pow_pos k
  rw [loaded, needsResize, resize, Bool.true_and, decide_eq_false_iff_not, Nat.not_le, wrap64_of_lt (by omega : t.count + 1 < 2 ^ 64),
    wrap64_of_lt (show (t.count + 1) * 100 < 2 ^ 64 by omega), Nat.div_lt_iff_lt_mul pos]

/-- A node more, and the larger table if the load asks for it. -/
theorem Balanced.link {first : Nat} {t' : Table V} (h : Balanced first t) (laid : Laid t.size t.buckets) (resize : t.resize = true)
    (few : t.count < 2 ^ 56) (count : t'.count = t.count + 1) (size : t'.size = if loaded t then 2 * t.size else t.size)
    (resizes : t'.resizes = if loaded t then wrap64 (t.resizes + 1) else t.resizes) :
    Balanced first t' ∧ t'.resizes ≤ t.resizes + 1 := by
  obtain ⟨k, bits, power⟩ := laid.power
  have pos : 0 < t.size := power ▸ Nat.two_pow_pos k
  have light := h.light
  cases load : loaded t with
  | false =>
    rw [load, if_neg Bool.false_ne_true] at size resizes
    have bound := (loaded_eq_false_iff laid resize few).mp load
    refine ⟨⟨?_, ?_⟩, by omega⟩
    · rw [size, resizes, h.size]
    · rwa [count, size]
  | true =>
    rw [load, if_pos rfl] at size resizes
    -- The resizes so far doubled a word as often.
    have few : t.resizes < 2 ^ 64 - 1 := by
      have less : t.resizes < 2 ^ t.resizes := Nat.lt_two_pow_self
      have doubled : 2 ^ t.resizes ≤ t.size := by
        rw [h.size]
        refine Nat.le_mul_of_pos_left _ (Nat.pos_of_ne_zero fun zero => ?_)
        rw [h.size, zero, Nat.zero_mul] at pos
        exact Nat.lt_irrefl 0 pos
      have word : t.size ≤ 2 ^ 63 := power ▸ Nat.pow_le_pow_right (by decide) bits
      omega
    rw [wrap64_of_lt (by omega)] at resizes
    refine ⟨⟨?_, ?_⟩, resizes.le⟩
    · rw [size, resizes, h.size, Nat.pow_succ, Nat.mul_comm 2, Nat.mul_assoc]
    · -- A table of one slot has no node before, and in any other the new one adds less than is doubled.
      rw [count, size]
      rw [maxLoad] at light ⊢
      omega

/-- One call. -/
theorem ensures_set_growing (all : P.Succeeds) {first : Nat} (h : Growing first t assignments) (key : List UInt8) (value : V)
    (few : (keys (assignments ++ [(key, value)])).card < 2 ^ 56) :
    Ensures (set t (some key) value : Prog P _) fun r =>
      Growing first r.2 (assignments ++ [(key, value)]) ∧ Balanced first r.2 ∧ r.2.resizes ≤ t.resizes + 1 := by
  obtain ⟨refines, laid⟩ := h.refines.provided
  obtain ⟨resizes, resize, preallocate⟩ := provided_resizes t
  have balanced := h.provided
  have before : (keys assignments).card ≤ (keys (assignments ++ [(key, value)])).card := by
    rw [keys_snoc]
    exact Finset.card_le_card (Finset.subset_insert ..)
  have count := refines.count_keys (by omega)
  intro s
  unfold set
  rw [bind_apply, provide_run h.refines s, all.meets, if_pos rfl]
  obtain ⟨chain, found, ⟨chain', overwritten, -, assigned⟩ | ⟨missing, new⟩⟩ := refines.search laid key value
  · simp only [if_true, found, overwritten]
    have same : Balanced first { provided t with buckets := (provided t).buckets.set (slot (computeHash key) (provided t).size) chain' } :=
      ⟨balanced.size, balanced.light⟩
    exact ⟨_, _, rfl, ⟨assigned, resize.trans h.resize, preallocate.trans h.preallocate, Or.inr same⟩, same, by simp [resizes]⟩
  · simp only [if_true, found, missing]
    obtain ⟨r, s', run, outcome⟩ := @append_run P _ _ _ refines laid key value chain found new (P.meets (arrayRequests t) s).2
    have counted := returns_append_resizes (P := P) laid _ _ _ _ _ _ _ run
    obtain ⟨-, linked⟩ := outcome.resolve_left fun refused => by simp [all.meets] at refused
    have met : r.1 = true := by
      rw [← all.meets (loadRequests (provided t)) (P.meets [sizeofBucket] (P.meets (arrayRequests t) s).2).2, linked.met]
    have more : r.2.count = (provided t).count + 1 := by
      rw [linked.count]
      exact wrap64_of_lt (by omega)
    have size := linked.size
    dsimp only at counted
    rw [met, Bool.and_true] at size counted
    have after : Balanced first r.2 ∧ r.2.resizes ≤ (provided t).resizes + 1 :=
      balanced.link laid (resize.trans h.resize) (by omega) more size counted
    rw [resizes] at after
    exact ⟨r, s', run, ⟨linked.assigned, linked.kept.2.trans (resize.trans h.resize), linked.kept.1.trans (preallocate.trans h.preallocate),
      Or.inr after.1⟩, after⟩

/-- All calls. -/
theorem ensures_setAll_growing (all : P.Succeeds) {first : Nat} (after : List (List UInt8 × V)) :
    ∀ {t : Table V} {assignments : List (List UInt8 × V)}, Growing first t assignments → (keys (assignments ++ after)).card < 2 ^ 56 →
      Ensures (setAll t after : Prog P _) fun t' => Growing first t' (assignments ++ after) := by
  induction after with
  | nil =>
    intro t assignments h _
    rw [List.append_nil]
    exact .pure h
  | cons assignment after ih =>
    intro t assignments h few
    obtain ⟨key, value⟩ := assignment
    rw [List.append_cons] at few ⊢
    have part : keys (assignments ++ [(key, value)]) ⊆ keys (assignments ++ [(key, value)] ++ after) := by
      intro other there
      simp only [keys, List.mem_toFinset, List.map_append, List.mem_append] at there ⊢
      exact Or.inl there
    have fewer := Nat.lt_of_le_of_lt (Finset.card_le_card part) few
    refine (ensures_set_growing all h key value fewer).bind fun r hr => ih hr.1 few

/-- **The load bound is kept.** Behind every call the load is below the bound and the size is the
rounded `preallocate`, doubled by every resize; and a call makes one resize at most. -/
theorem load_bounded (all : P.Succeeds) {preallocate : Nat} (least : 1 ≤ preallocate) (most : preallocate ≤ 2 ^ 32)
    {assignments : List (List UInt8 × V)} (few : (keys assignments).card < 2 ^ 56) :
    Ensures (setAll (init preallocate true) assignments : Prog P _) fun t =>
      ∀ key value, (keys (assignments ++ [(key, value)])).card < 2 ^ 56 →
        Ensures (set t (some key) value : Prog P _) fun r =>
          0 < r.2.size ∧ r.2.count * 100 / r.2.size < maxLoad ∧ r.2.size = pow2Size preallocate * 2 ^ r.2.resizes ∧
            r.2.resizes ≤ t.resizes + 1 := by
  refine (ensures_setAll_growing all assignments (.init least most) few).mono fun t growing key value few' => ?_
  rw [List.nil_append] at growing
  refine (ensures_set_growing all growing key value few').mono fun r ⟨_, balanced, once⟩ => ?_
  have light := balanced.light
  have pos : 0 < r.2.size := by
    by_contra none
    rw [Nat.eq_zero_of_not_pos none] at light
    exact Nat.not_lt_zero _ light
  exact ⟨pos, (Nat.div_lt_iff_lt_mul pos).mpr light, balanced.size, once⟩

/-- Three keys in a table that began with one slot, one of them twice, and a fourth key. -/
theorem load_bounded_four_keys :
    Ensures (setAll (init 1 true) [([65], 1), ([66], 2), ([65], 3), ([67], 4)] : Prog Platform.ample (Table Nat)) fun t =>
      Ensures (set t (some [68]) 5 : Prog Platform.ample _) fun r =>
        0 < r.2.size ∧ r.2.count * 100 / r.2.size < maxLoad ∧ r.2.size = pow2Size 1 * 2 ^ r.2.resizes ∧ r.2.resizes ≤ t.resizes + 1 := by
  have bounded := @load_bounded .ample Nat Platform.ample_succeeds 1 (by decide) (by decide)
    [([65], 1), ([66], 2), ([65], 3), ([67], 4)] (by decide)
  exact bounded.mono fun t further => further [68] 5 (by decide)

-- The first, the second and the third key make the table larger.
example : ((setAll (init 1 true) [([65], 1), ([66], 2), ([65], 3), ([67], 4)] : Prog Platform.ample (Table Nat)).value ()).map
    (fun t => (t.size, t.resizes, t.count)) = .ok (8, 3, 3) := by decide +kernel

end Cpptrw.Hashtable
