import Cpptrw.Hashtable.Failure

/-!
# A call that fails behind its insertion

`sl_hashtable_set` links the new node and counts it, and then makes the array
larger if the load asks for it. It returns what that returns. So a call that
returns `-1` because the larger table was refused has made its assignment.
-/

namespace Cpptrw.Hashtable

open Lib Arena Prog

variable {P : Platform} {V : Type}

/-! ## What is asked of the allocator -/

/-- The table with its array. -/
def provided (t : Table V) : Table V :=
  if t.size = 0 then { t with buckets := List.replicate t.preallocate [], size := t.preallocate, count := 0 } else t

/-- The requests for the first array. -/
def arrayRequests (t : Table V) : List Nat := if t.size = 0 then [sizeofPointer * t.preallocate] else []

/-- The requests for a larger array and for its nodes, when one is new. -/
def growthRequests (t : Table V) : List Nat :=
  sizeofPointer * (2 * (provided t).size) :: List.replicate (t.buckets.flatten.length + 1) sizeofBucket

/-- The nodes are made anew as long as they are not refused. -/
theorem moveNodes_run {size : Nat} (nodes : List (Bucket V)) (hashed : ∀ node ∈ nodes, node.hash = computeHash node.key) :
    ∀ {buckets : List (List (Bucket V))} (wasted : Nat) (s : P.State), Laid size buckets →
      ∃ r, (moveNodes size nodes buckets wasted : Prog P _) s =
          .ok (r, (P.meets (List.replicate nodes.length sizeofBucket) s).2) ∧
        r.1 = (P.meets (List.replicate nodes.length sizeofBucket) s).1 := by
  induction nodes with
  | nil => exact fun wasted s laid => ⟨_, rfl, rfl⟩
  | cons node nodes ih =>
    intro buckets wasted s laid
    obtain ⟨chain, found⟩ := laid.chain node.hash
    have mine : node.hash = computeHash node.key := hashed node (by simp)
    rw [List.length_cons, List.replicate_succ, moveNodes, found, Platform.meets]
    dsimp only
    rw [createBucket, bind_assoc, allocate_bind_apply]
    cases met : (P.allocate s sizeofBucket).1 with
    | true => exact ih (fun other there => hashed other (List.mem_cons_of_mem _ there)) _ _ (laid.append found mine)
    | false => exact ⟨_, rfl, met.symm⟩

/-- A resize comes to its end if the larger array and all the nodes are met. -/
theorem resize_run {t : Table V} (laid : Laid t.size t.buckets) (small : maxLoad * t.size < 2 ^ 64) (s : P.State) :
    ∃ r, (resize t (wrap64 (t.size <<< 1)) : Prog P _) s =
        .ok (r, (P.meets (sizeofPointer * (2 * t.size) :: List.replicate t.buckets.flatten.length sizeofBucket) s).2) ∧
      r.1 = (P.meets (sizeofPointer * (2 * t.size) :: List.replicate t.buckets.flatten.length sizeofBucket) s).1 ∧
      r.2.resize = t.resize ∧ r.2.size = if r.1 then 2 * t.size else t.size := by
  obtain ⟨double, room, k, bits, power⟩ := laid.double small
  have larger : ¬2 * t.size ≤ t.size := by
    have := Nat.two_pow_pos k
    omega
  unfold resize
  rw [double]
  dsimp only
  rw [if_neg larger, wrap64_of_lt room, allocate_bind_apply, Platform.meets]
  cases met : (P.allocate s (sizeofPointer * (2 * t.size))).1 with
  | true =>
    have array := @clearBuckets_met V (2 * t.size) room
    rw [wrap64_of_lt room] at array
    obtain ⟨r, run, moved⟩ := moveNodes_run (P := P) t.buckets.flatten laid.hashed t.wasted
      (P.allocate s (sizeofPointer * (2 * t.size))).2 (power ▸ Laid.empty (by omega))
    simp only [if_true, array, lift_ok, pure_bind]
    rw [bind_apply, run]
    rw [← moved]
    obtain ⟨done, buckets, wasted⟩ := r
    cases done with
    | true => exact ⟨_, rfl, rfl, rfl, rfl⟩
    | false => exact ⟨_, rfl, rfl, rfl, rfl⟩
  | false => exact ⟨_, rfl, met.symm, rfl, rfl⟩

/-- The first array is made if it is met. -/
theorem provide_run {t : Table V} {assignments : List (List UInt8 × V)} (h : Refines t assignments) (s : P.State) :
    (provide t : Prog P _) s =
      .ok (((P.meets (arrayRequests t) s).1, if (P.meets (arrayRequests t) s).1 then provided t else t), (P.meets (arrayRequests t) s).2) := by
  unfold provide provided arrayRequests
  by_cases none : t.size = 0
  · obtain ⟨k, bound, preallocate⟩ := h.preallocate
    have room : sizeofPointer * t.preallocate < 2 ^ 64 := by
      rw [preallocate, show sizeofPointer = 2 ^ 3 from rfl, ← Nat.pow_add]
      exact Nat.pow_lt_pow_right (by decide) (by omega)
    have size : (if pow2Size t.preallocate < t.preallocate then t.preallocate else pow2Size t.preallocate) = t.preallocate := by
      rw [preallocate, pow2Size_pow (by omega), ite_self]
    have array := @clearBuckets_met V t.preallocate room
    rw [wrap64_of_lt room] at array
    simp only [none, if_true, Platform.meets]
    unfold allocate
    rw [size, wrap64_of_lt room, allocate_bind_apply]
    cases met : (P.allocate s (sizeofPointer * t.preallocate)).1 with
    | true =>
      simp only [if_true, array, lift_ok, pure_bind]
      rfl
    | false =>
      simp only [Bool.false_eq_true, if_false, met]
      rfl
  · simp only [none, if_false, Platform.meets]
    rfl

theorem createBucket_run (hash : UInt64) (key : List UInt8) (value : V) (s : P.State) :
    (createBucket hash key value : Prog P _) s =
      .ok (if (P.meets [sizeofBucket] s).1 then some ⟨hash, key, value⟩ else none, (P.meets [sizeofBucket] s).2) := by
  rw [createBucket, allocate_bind_apply]
  by_cases met : (P.allocate s sizeofBucket).1 = true <;> simp [Platform.meets, met, pure_apply]

/-- With one node more the load asks for a larger table. -/
def loaded (t : Table V) : Bool := needsResize { t with count := wrap64 (t.count + 1) }

/-- The requests for a larger table, if one node more asks for it. -/
def loadRequests (t : Table V) : List Nat :=
  if loaded t then sizeofPointer * (2 * t.size) :: List.replicate (t.buckets.flatten.length + 1) sizeofBucket else []

/-- A new node has been linked, and the larger table was not asked for, met or refused. -/
structure Linked (P : Platform) (t : Table V) (assignments : List (List UInt8 × V)) (key : List UInt8) (value : V) (s : P.State)
    (r : Bool × Table V) (s' : P.State) : Prop where
  assigned : Refines r.2 (assignments ++ [(key, value)])
  count : r.2.count = wrap64 (t.count + 1)
  kept : r.2.preallocate = t.preallocate ∧ r.2.resize = t.resize
  met : P.meets (loadRequests t) s = (r.1, s')
  size : r.2.size = if loaded t && r.1 then 2 * t.size else t.size

/-- A new node is refused or linked. -/
theorem append_run {t : Table V} {assignments : List (List UInt8 × V)} (h : Refines t assignments) (laid : Laid t.size t.buckets)
    {key : List UInt8} {value : V} {chain : List (Bucket V)} (found : t.buckets[slot (computeHash key) t.size]? = some chain)
    (new : key ∉ t.buckets.flatten.map Bucket.key) (s : P.State) :
    ∃ r s', (append t (computeHash key) key value chain : Prog P _) s = .ok (r, s') ∧
      ((P.meets [sizeofBucket] s).1 = false ∧ r = (false, t) ∧ s' = (P.meets [sizeofBucket] s).2 ∨
        (P.meets [sizeofBucket] s).1 = true ∧ Linked P t assignments key value (P.meets [sizeofBucket] s).2 r s') := by
  rw [append, bind_apply, createBucket_run]
  by_cases met : (P.meets [sizeofBucket] s).1 = true
  · let linked : Table V := { t with
      buckets := t.buckets.set (slot (computeHash key) t.size) (chain ++ [⟨computeHash key, key, value⟩])
      count := wrap64 (t.count + 1) }
    have refines : Refines linked (assignments ++ [(key, value)]) := h.link laid value found new
    have laid' : Laid linked.size linked.buckets := @Laid.append _ _ _ laid ⟨computeHash key, key, value⟩ _ found rfl
    have nodes : linked.buckets.flatten.length = t.buckets.flatten.length + 1 := by
      rw [(flatten_append_perm found (⟨computeHash key, key, value⟩ : Bucket V)).length_eq, List.length_append, List.length_singleton]
    have flag : loaded t = needsResize linked := rfl
    rw [if_pos met]
    by_cases load : needsResize linked = true
    · obtain ⟨r, run, moved, resize, size⟩ := resize_run laid' (needsResize_small load) (P.meets [sizeofBucket] s).2
      obtain ⟨-, laid'', perm, count, grown⟩ := (ensures_resize laid' (needsResize_small load)).of_run run
      rw [nodes] at run moved
      refine ⟨r, _, (congrFun (if_pos load) _).trans run, Or.inr ⟨met, ?_⟩⟩
      constructor
      · exact refines.rearrange laid'' perm count grown.preallocate
      · exact count
      · exact ⟨grown.preallocate, resize⟩
      · rw [loadRequests, flag, if_pos load, moved]
      · rw [flag, load, Bool.true_and]
        exact size
    · refine ⟨(true, linked), (P.meets [sizeofBucket] s).2, congrFun (if_neg load) _, Or.inr ⟨met, ?_⟩⟩
      constructor
      · exact refines
      · rfl
      · exact ⟨rfl, rfl⟩
      · rw [loadRequests, flag, if_neg load]
        rfl
      · rw [flag, Bool.eq_false_iff.mpr load]
        rfl
  · rw [if_neg met]
    exact ⟨_, _, rfl, Or.inl ⟨Bool.eq_false_iff.mpr met, rfl, rfl⟩⟩

/-! ## The table with its array -/

variable {t : Table V} {assignments : List (List UInt8 × V)}

theorem Refines.empty (h : Refines t assignments) (none : t.size = 0) : t.buckets = [] := by
  rcases h.laid with ⟨-, empty⟩ | laid
  · exact empty
  · rw [← List.length_eq_zero_iff, laid.length, none]

theorem Refines.nodes_provided (h : Refines t assignments) : (provided t).buckets.flatten = t.buckets.flatten := by
  unfold provided
  split
  · rename_i none
    simp [h.empty none]
  · rfl

theorem Refines.count_provided (h : Refines t assignments) : (provided t).count = t.count := by
  unfold provided
  split
  · rename_i none
    rw [h.count, h.empty none]
    rfl
  · rfl

theorem Refines.provided (h : Refines t assignments) : Refines (provided t) assignments ∧ Laid (provided t).size (provided t).buckets := by
  have met : (Platform.ample.meets (arrayRequests t) ()).1 = true := by
    unfold arrayRequests
    split <;> rfl
  have run := provide_run (P := .ample) h ()
  rw [if_pos met, met] at run
  obtain ⟨-, laid, refines, -⟩ := (ensures_provide (P := .ample) h).of_run run
  exact ⟨refines, laid rfl⟩

/-! ## Calls that strand their node -/

/-- The key is new, its node is met, and the load then asks for a larger table, which is refused. -/
structure Strands (P : Platform) (t : Table V) (key : List UInt8) (s : P.State) : Prop where
  new : key ∉ t.buckets.flatten.map Bucket.key
  linked : (P.meets (arrayRequests t ++ [sizeofBucket]) s).1 = true
  loaded : needsResize { provided t with count := wrap64 (t.count + 1) } = true
  refused : (P.meets (growthRequests t) (P.meets (arrayRequests t ++ [sizeofBucket]) s).2).1 = false

/-- **One call**, and what it leaves when it fails. -/
theorem set_run (h : Refines t assignments) (key : List UInt8) (value : V) (s : P.State) :
    ∃ r s', (set t (some key) value : Prog P _) s = .ok (r, s') ∧
      (Strands P t key s ∧ r.1 = false ∧ Refines r.2 (assignments ++ [(key, value)]) ∧ r.2.count = wrap64 (t.count + 1) ∨
        ¬Strands P t key s ∧ (r.1 = false → Refines r.2 assignments ∧ r.2.count = t.count)) := by
  obtain ⟨refines, laid⟩ := h.provided
  unfold set
  rw [bind_apply, provide_run h s]
  by_cases array : (P.meets (arrayRequests t) s).1 = true
  · have after : P.meets (arrayRequests t ++ [sizeofBucket]) s = P.meets [sizeofBucket] (P.meets (arrayRequests t) s).2 := by
      rw [Platform.meets_append, if_pos array]
    rw [if_pos array]
    dsimp only
    obtain ⟨chain, found, ⟨chain', overwritten, known, -⟩ | ⟨missing, new⟩⟩ := refines.search laid key value
    · simp only [array, if_true, found, overwritten]
      refine ⟨_, _, rfl, Or.inr ⟨fun strands => strands.new ?_, nofun⟩⟩
      rwa [← h.nodes_provided]
    · simp only [array, if_true, found, missing]
      obtain ⟨r, s', run, outcome⟩ := append_run (P := P) refines laid found new (P.meets (arrayRequests t) s).2
      rw [← after] at outcome
      refine ⟨r, s', run, ?_⟩
      rcases outcome with ⟨refused, rfl, -⟩ | ⟨met, linked⟩
      · exact Or.inr ⟨fun strands => absurd strands.linked (by simp [refused]), fun _ => ⟨refines, h.count_provided⟩⟩
      · have answer := linked.met
        have count := linked.count
        rw [h.count_provided] at count
        have load : loaded (Hashtable.provided t) = needsResize { Hashtable.provided t with count := wrap64 (t.count + 1) } := by
          rw [loaded, h.count_provided]
        by_cases failed : r.1 = false
        · rw [loadRequests, load, h.nodes_provided] at answer
          split at answer
          · rename_i wanted
            refine Or.inl ⟨⟨h.nodes_provided ▸ new, met, wanted, ?_⟩, failed, linked.assigned, count⟩
            rw [growthRequests, answer, failed]
          · rw [Platform.meets, Prod.mk.injEq] at answer
            exact absurd (answer.1.trans failed) (by decide)
        · refine Or.inr ⟨fun strands => failed ?_, fun refused => absurd refused failed⟩
          rw [loadRequests, load, if_pos strands.loaded, h.nodes_provided] at answer
          have refused := strands.refused
          rwa [growthRequests, answer] at refused
  · refine ⟨(false, t), (P.meets (arrayRequests t) s).2, ?_, Or.inr ⟨fun strands => ?_, fun _ => ⟨h, rfl⟩⟩⟩
    · rw [if_neg array]
      simp only [array, Bool.false_eq_true, if_false]
      rfl
    · have linked := strands.linked
      rw [Platform.meets_append, if_neg array] at linked
      exact array linked

/-- When the call returns `-1`, nothing has changed for `sl_hashtable_get`, and neither has the count. -/
def FailsCleanly (P : Platform) (t : Table V) (key : List UInt8) (value : V) (s : P.State) : Prop :=
  ∀ r s', (set t (some key) value : Prog P _) s = .ok (r, s') → r.1 = false → (∀ other, get r.2 other = get t other) ∧ r.2.count = t.count

/-- A table that calls of `sl_hashtable_set` lead to, whatever was met and refused. -/
def ReachedTable (t : Table V) : Prop :=
  ∃ (P : Platform) (s s' : P.State) (preallocate : Nat) (resize : Bool) (assignments : List (List UInt8 × V)),
    1 ≤ preallocate ∧ preallocate ≤ 2 ^ 32 ∧ (setAll (init preallocate resize) assignments : Prog P _) s = .ok (t, s')

theorem ReachedTable.refines (h : ReachedTable t) : ∃ assignments, Refines t assignments := by
  obtain ⟨P, s, s', preallocate, resize, assignments, least, most, run⟩ := h
  obtain ⟨-, made, -, refines⟩ := (setAll_outcome assignments (.init least most resize)).of_run run
  exact ⟨_, refines⟩

/-- A stranded node is found. -/
theorem Strands.not_failsCleanly {key : List UInt8} {s : P.State} (strands : Strands P t key s) (h : Refines t assignments) (value : V) :
    ¬FailsCleanly P t key value s := by
  intro cleanly
  obtain ⟨r, s', run, outcome⟩ := set_run h key value s
  rcases outcome with ⟨-, failed, assigned, -⟩ | ⟨clean, -⟩
  · have same := (cleanly r s' run failed).1 key
    rw [assigned.get, lastValue_snoc, if_pos rfl, h.get] at same
    refine strands.new ?_
    rw [h.holding.keys, ← lastValue_isSome, ← same]
    rfl
  · exact clean strands

/-- **A failed insertion changes nothing**, unless it is the larger table that is refused. -/
theorem failed_insertion_iff (reached : ReachedTable t) (key : List UInt8) (value : V) (s : P.State) :
    FailsCleanly P t key value s ↔ ¬Strands P t key s := by
  obtain ⟨assignments, refines⟩ := reached.refines
  constructor
  · exact fun cleanly strands => strands.not_failsCleanly refines value cleanly
  · intro clean r s' run failed
    obtain ⟨r', s'', run', outcome⟩ := set_run refines key value s
    cases run.symm.trans run'
    rcases outcome with ⟨strands, -⟩ | ⟨-, kept⟩
    · exact absurd strands clean
    · obtain ⟨refines', count⟩ := kept failed
      refine ⟨fun other => ?_, count⟩
      rw [refines'.get, refines.get]

def noneAsked : thirdRefused.State := (0 : Nat)

/-- A table without an array, for one slot. -/
def oneSlot : Table Nat := init 1 true

theorem reached_oneSlot : ReachedTable oneSlot := ⟨.ample, (), (), 1, true, [], by decide, by decide, rfl⟩

theorem failed_insertion_iff_one_slot : FailsCleanly thirdRefused oneSlot [65] 1 noneAsked ↔ ¬Strands thirdRefused oneSlot [65] noneAsked :=
  failed_insertion_iff reached_oneSlot [65] 1 noneAsked

/-- The array and the node are met, and the larger array is not: the call returns `-1`, and the key has
its value. -/
theorem failed_insertion_stays : ReachedTable oneSlot ∧ ¬FailsCleanly thirdRefused oneSlot [65] 1 noneAsked := by
  have strands : Strands thirdRefused oneSlot [65] noneAsked := ⟨by simp [oneSlot, init], rfl, by decide, rfl⟩
  exact ⟨reached_oneSlot, strands.not_failsCleanly (.init (by decide) (by decide) true) 1⟩

end Cpptrw.Hashtable
