import Cpptrw.Hashtable.FailedInsertion
import Cpptrw.Lib.Metering
import Cpptrw.Lib.Reach

/-!
# The waste of the hash table

What the table has obtained from the arena is in use, counted in `wasted`, or
`missing`. A resize counts every node it makes at once, and the array that it
leaves when it is through. When it is abandoned at a node, the new array is left
instead, and nothing counts that (`Abandons`).
-/

namespace Cpptrw.Hashtable

open Lib Arena Prog Platform

variable {P : Platform} {V : Type} {t : Table V} {s s' : P.metered.State} {lost : Nat}

/-- The octets that the table has obtained are those it uses, those it has counted as wasted, and so many. -/
def Missing (t : Table V) (s : P.metered.State) (lost : Nat) : Prop :=
  obtained s = t.size * sizeofPointer + t.count * sizeofBucket + t.wasted + lost

/-- The equation of the accounts. -/
abbrev Exact (t : Table V) (s : P.metered.State) : Prop := Missing t s 0

/-- What the calls keep, whatever they are given and whatever is refused. -/
structure Stocked (t : Table V) : Prop where
  rounded : ∃ n, t.preallocate = pow2Size n
  size : t.size = 0 ∧ t.buckets = [] ∨ ∃ k ≤ 63, t.size = 2 ^ k
  count : t.count = t.buckets.flatten.length

/-! ## The larger table -/

/-- Every node that is made is counted. -/
theorem moveNodes_obtained {size : Nat} (nodes : List (Bucket V)) :
    ∀ {buckets : List (List (Bucket V))} {wasted : Nat} {s s' : P.metered.State} {r : Bool × List (List (Bucket V)) × Nat},
      moveNodes size nodes buckets wasted s = .ok (r, s') → wasted ≤ obtained s →
        P.metered.meets (List.replicate nodes.length sizeofBucket) s = (r.1, s') ∧ obtained s + r.2.2 = obtained s' + wasted ∧
          (r.1 = true → r.2.1.flatten.length = buckets.flatten.length + nodes.length) := by
  induction nodes with
  | nil =>
    intro buckets wasted s s' r run _
    cases run
    exact ⟨rfl, rfl, fun _ => rfl⟩
  | cons node nodes ih =>
    intro buckets wasted s s' r run within
    rw [moveNodes] at run
    cases found : buckets[slot node.hash size]? with
    | none =>
      rw [found] at run
      cases run
    | some chain =>
      rw [found] at run
      dsimp only at run
      rw [createBucket, bind_assoc, allocate_bind_apply] at run
      rw [List.length_cons, List.replicate_succ, meets]
      have got := obtained_allocate s sizeofBucket
      cases met : (P.metered.allocate s sizeofBucket).1 with
      | true =>
        have room := lt_of_met met
        rw [met, if_pos rfl] at got
        rw [met, if_pos rfl, pure_bind] at run
        dsimp only at run
        rw [wrap64_of_lt (by omega)] at run
        obtain ⟨meets, counted, all⟩ := ih run (by omega)
        have more := (flatten_append_perm found (⟨node.hash, node.key, node.value⟩ : Bucket V)).length_eq
        rw [List.length_append, List.length_singleton] at more
        refine ⟨meets, by omega, fun done => ?_⟩
        rw [all done, more]
        omega
      | false =>
        rw [met, if_neg Bool.false_ne_true] at got
        rw [met] at run
        cases run
        exact ⟨Prod.ext met rfl, by rw [got], fun done => absurd done Bool.false_ne_true⟩

/-- The larger array is met, and one of the nodes that are to be made anew is not. -/
abbrev StopsShort (P : Platform) (size nodes : Nat) (s : P.State) : Prop :=
  (P.allocate s (sizeofPointer * (2 * size))).1 = true ∧
    (P.meets (List.replicate nodes sizeofBucket) (P.allocate s (sizeofPointer * (2 * size))).2).1 = false

/-- What a call leaves: it loses an array, or accounts for all that it obtains. -/
structure Booked (loses : Prop) (array lost : Nat) (t : Table V) (s : P.metered.State) : Prop where
  stocked : Stocked t
  short : loses → Missing t s (lost + array)
  through : ¬loses → Missing t s lost

theorem Booked.congr {loses loses' : Prop} {array : Nat} (h : Booked loses array lost t s) (same : loses' ↔ loses) :
    Booked loses' array lost t s := by
  rwa [propext same]

/-- A call that loses nothing. -/
theorem Booked.of_missing {loses : Prop} {array : Nat} (stocked : Stocked t) (through : ¬loses) (missing : Missing t s lost) :
    Booked loses array lost t s :=
  ⟨stocked, fun short => absurd short through, fun _ => missing⟩

/-- A resize accounts for all that it obtains, unless it stops short. -/
theorem resize_obtained (stocked : Stocked t) {k : Nat} (bits : k ≤ 63) (power : t.size = 2 ^ k) (small : maxLoad * t.size < 2 ^ 64)
    {r : Bool × Table V} (run : resize t (wrap64 (t.size <<< 1)) s = .ok (r, s')) (missing : Missing t s lost) :
    Booked (StopsShort P.metered t.size t.buckets.flatten.length s) (sizeofPointer * (2 * t.size)) lost r.2 s' := by
  obtain ⟨double, room, k', bits', power'⟩ := (power ▸ Laid.empty (V := V) bits).double small
  have larger : ¬2 * t.size ≤ t.size := by
    have := Nat.two_pow_pos k
    omega
  have array := @clearBuckets_met V (2 * t.size) room
  rw [wrap64_of_lt room] at array
  have got := obtained_allocate s (sizeofPointer * (2 * t.size))
  unfold resize at run
  rw [double] at run
  dsimp only at run
  rw [if_neg larger, wrap64_of_lt room, allocate_bind_apply] at run
  by_cases met : (P.metered.allocate s (sizeofPointer * (2 * t.size))).1 = true
  · rw [if_pos met] at got run
    rw [array, lift_ok, pure_bind] at run
    obtain ⟨⟨moved, buckets, wasted⟩, s₁, moving, run⟩ := exists_of_run_bind run
    have within : t.wasted ≤ obtained (P.metered.allocate s (sizeofPointer * (2 * t.size))).2 := by
      rw [Missing] at missing
      omega
    obtain ⟨meets, counted, nodes⟩ := moveNodes_obtained _ moving within
    dsimp only at meets counted nodes
    cases moved with
    | true =>
      rw [if_pos rfl] at run
      cases run
      have addresses := obtained_lt s'
      have pointers : sizeofPointer * (2 * t.size) = 16 * t.size := by
        rw [sizeofPointer]
        omega
      replace got := got.trans (congrArg (obtained s + ·) pointers)
      rw [Missing, sizeofPointer, sizeofBucket] at missing
      constructor
      · refine ⟨stocked.rounded, Or.inr ⟨k', by omega, power'⟩, ?_⟩
        rw [stocked.count, nodes rfl, List.flatten_replicate_nil, List.length_nil, Nat.zero_add]
      · intro short
        exact absurd (short.2.symm.trans (congrArg Prod.fst meets)) Bool.false_ne_true
      · intro _
        rw [Missing, sizeofPointer, sizeofBucket]
        dsimp only
        rw [wrap64_of_lt (by omega)]
        omega
    | false =>
      rw [if_neg Bool.false_ne_true] at run
      cases run
      constructor
      · exact ⟨stocked.rounded, stocked.size, stocked.count⟩
      · intro _
        rw [Missing] at missing ⊢
        dsimp only
        omega
      · intro through
        exact absurd ⟨met, congrArg Prod.fst meets⟩ through
  · rw [if_neg met] at got run
    cases run
    refine .of_missing stocked (fun short => met short.1) ?_
    rwa [Missing, got]

/-! ## One call -/

/-- A new node is refused or linked, and the load may then ask for a larger table. -/
theorem append_obtained (stocked : Stocked t) {k : Nat} (bits : k ≤ 63) (power : t.size = 2 ^ k) {hash : UInt64} {key : List UInt8}
    {value : V} {chain : List (Bucket V)} (found : t.buckets[slot hash t.size]? = some chain) {r : Bool × Table V}
    (run : append t hash key value chain s = .ok (r, s')) (missing : Missing t s lost) :
    Booked ((P.metered.meets [sizeofBucket] s).1 = true ∧ loaded t = true ∧
        StopsShort P.metered t.size (t.buckets.flatten.length + 1) (P.metered.meets [sizeofBucket] s).2)
      (sizeofPointer * (2 * t.size)) lost r.2 s' := by
  rw [append, bind_apply, createBucket_run] at run
  have got := obtained_allocate s sizeofBucket
  rw [← meets_singleton] at got
  by_cases met : (P.metered.meets [sizeofBucket] s).1 = true
  · rw [if_pos met] at run
    rw [if_pos met] at got
    have nodes := (flatten_append_perm found (⟨hash, key, value⟩ : Bucket V)).length_eq
    rw [List.length_append, List.length_singleton] at nodes
    let linked : Table V := { t with
      buckets := t.buckets.set (slot hash t.size) (chain ++ [⟨hash, key, value⟩])
      count := wrap64 (t.count + 1) }
    change (if needsResize linked = true then resize linked (wrap64 (t.size <<< 1)) else pure (true, linked)) _ = _ at run
    have booked : Stocked linked ∧ Missing linked (P.metered.meets [sizeofBucket] s).2 lost := by
      have addresses := obtained_lt (P.metered.meets [sizeofBucket] s).2
      rw [Missing, sizeofPointer, sizeofBucket] at missing
      rw [got] at addresses
      have more : wrap64 (t.count + 1) = t.count + 1 := wrap64_of_lt (by omega)
      constructor
      · refine ⟨stocked.rounded, Or.inr ⟨k, bits, power⟩, ?_⟩
        exact more.trans (by rw [nodes, stocked.count])
      · change obtained _ = t.size * sizeofPointer + wrap64 (t.count + 1) * sizeofBucket + t.wasted + lost
        rw [got, more, sizeofPointer, sizeofBucket]
        omega
    have flag : loaded t = needsResize linked := rfl
    by_cases load : needsResize linked = true
    · have resized := resize_obtained booked.1 bits power (needsResize_small load) ((congrFun (if_pos load) _).symm.trans run) booked.2
      refine resized.congr ?_
      rw [flag, nodes]
      exact ⟨fun short => short.2.2, fun short => ⟨met, load, short⟩⟩
    · have done := (congrFun (if_neg load) _).symm.trans run
      cases done
      exact .of_missing booked.1 (fun short => load short.2.1) booked.2
  · rw [if_neg met] at got run
    cases run
    refine .of_missing stocked (fun short => met short.1) ?_
    rwa [Missing, got]

theorem Stocked.empty (stocked : Stocked t) (none : t.size = 0) : t.buckets = [] := by
  rcases stocked.size with ⟨-, empty⟩ | ⟨k, -, power⟩
  · exact empty
  · have := Nat.two_pow_pos k
    omega

/-- There is a chain only in an array. -/
theorem Stocked.power (stocked : Stocked t) {i : Nat} {chain : List (Bucket V)} (found : t.buckets[i]? = some chain) :
    ∃ k ≤ 63, t.size = 2 ^ k := by
  rcases stocked.size with ⟨-, empty⟩ | power
  · rw [empty] at found
    cases found
  · exact power

theorem Stocked.provided (stocked : Stocked t) : Stocked (provided t) := by
  unfold Hashtable.provided
  split
  · obtain ⟨n, rounded⟩ := stocked.rounded
    refine ⟨⟨n, rounded⟩, ?_, ?_⟩
    · dsimp only
      rw [rounded]
      exact (pow2Size_cases n).imp (fun none => ⟨none, by rw [none]; rfl⟩) id
    · simp
  · exact stocked

theorem Stocked.nodes_provided (stocked : Stocked t) : (Hashtable.provided t).buckets.flatten = t.buckets.flatten := by
  unfold Hashtable.provided
  split
  · rename_i none
    simp [stocked.empty none]
  · rfl

/-- The first array, when its size is rounded. -/
theorem allocate_rounded (rounded : pow2Size t.preallocate = t.preallocate) :
    (allocate t t.preallocate : Prog P _) = Prog.allocate (wrap64 (sizeofPointer * t.preallocate)) >>= fun met =>
      if met then
        Prog.lift (clearBuckets (wrap64 (sizeofPointer * t.preallocate)) t.preallocate) >>= fun buckets =>
          pure (true, { t with buckets, size := t.preallocate, count := 0 })
      else pure (false, t) := by
  unfold allocate
  simp only [rounded, ite_self]

/-- The first array is refused, or made and counted. -/
theorem provide_obtained (stocked : Stocked t) {r : Bool × Table V} (run : provide t s = .ok (r, s')) (missing : Missing t s lost) :
    (P.metered.meets (arrayRequests t) s).1 = false ∧ r = (false, t) ∧ Missing t s' lost ∨
    P.metered.meets (arrayRequests t) s = (true, s') ∧ r = (true, provided t) ∧ Stocked (provided t) ∧
      Missing (provided t) s' lost := by
  unfold provide at run
  unfold arrayRequests provided
  by_cases none : t.size = 0
  · obtain ⟨n, rounded⟩ := stocked.rounded
    have empty : t.count = 0 := by rw [stocked.count, stocked.empty none, List.flatten_nil, List.length_nil]
    rw [if_pos none] at run ⊢
    rw [allocate_rounded (by rw [rounded, pow2Size_pow2Size])] at run
    generalize octets : wrap64 (sizeofPointer * t.preallocate) = request at run
    rw [allocate_bind_apply] at run
    have got := obtained_allocate s request
    by_cases met : (P.metered.allocate s request).1 = true
    · rw [if_pos met] at got run
      obtain ⟨buckets, s₁, cleared, run⟩ := exists_of_run_bind run
      rw [clearBuckets] at cleared
      split at cleared
      · rename_i inside
        have word : request = sizeofPointer * t.preallocate := by
          rw [← octets]
          exact wrap64_of_lt (Nat.lt_of_le_of_lt inside (octets ▸ wrap64_lt _))
        cases cleared
        cases run
        rw [if_pos none, meets_singleton, ← word]
        refine Or.inr ⟨Prod.ext met rfl, rfl, ?_, ?_⟩
        · have provided := stocked.provided
          rwa [Hashtable.provided, if_pos none] at provided
        · rw [Missing, empty, none] at missing
          rw [Missing, got, word]
          dsimp only
          rw [Nat.mul_comm sizeofPointer]
          omega
      · cases cleared
    · rw [if_neg met] at got run
      cases run
      refine Or.inl ⟨?_, rfl, ?_⟩
      · rw [meets_singleton, Bool.eq_false_iff]
        intro answer
        have addresses := lt_of_met answer
        rw [wrap64_of_lt (by omega)] at octets
        rw [← octets] at met
        exact met answer
      · rwa [Missing, got]
  · rw [if_neg none] at run ⊢
    cases run
    rw [if_neg none]
    exact Or.inr ⟨rfl, rfl, stocked, missing⟩

/-- The search of `sl_hashtable_set` finds a node if there is one in the chain. -/
theorem overwrite_eq_none_iff {key : List UInt8} {value : V} {chain : List (Bucket V)}
    (found : t.buckets[slot (computeHash key) t.size]? = some chain) :
    overwrite (computeHash key) key value chain = none ↔ probe t key = none := by
  rw [probe, found, Option.bind_some, Option.map_eq_none_iff, List.find?_eq_none]
  constructor
  · intro missing node there
    exact Bool.eq_false_iff.mp (overwrite_none missing node there)
  · intro none
    cases search : overwrite (computeHash key) key value chain with
    | none => rfl
    | some chain' =>
      obtain ⟨front, node, back, rfl, here, -⟩ := overwrite_some search
      exact absurd here (none node (by simp))

/-- An overwritten node is as many nodes. -/
theorem length_flatten_overwrite {hash : UInt64} {key : List UInt8} {value : V} {i : Nat} {chain chain' : List (Bucket V)}
    (found : t.buckets[i]? = some chain) (overwritten : overwrite hash key value chain = some chain') :
    (t.buckets.set i chain').flatten.length = t.buckets.flatten.length := by
  obtain ⟨front, back, same, set⟩ := split_at found
  obtain ⟨left, node, right, rfl, -, rfl⟩ := overwrite_some overwritten
  rw [set, same]
  simp

theorem Stocked.probe_provided (stocked : Stocked t) (key : List UInt8) : probe (Hashtable.provided t) key = probe t key := by
  unfold Hashtable.provided
  split
  · rename_i none
    rw [probe, probe, stocked.empty none]
    dsimp only
    rw [List.getElem?_replicate]
    split <;> rfl
  · rfl

/-- **The condition under which an array is lost**: the key is new, the array and the node for it are
met, the load then asks for a larger table, and its array is met but one of its nodes is not. -/
structure Abandons (P : Platform) (t : Table V) (key : List UInt8) (s : P.State) : Prop where
  new : probe t key = none
  linked : (P.meets (arrayRequests t ++ [sizeofBucket]) s).1 = true
  loaded : loaded (provided t) = true
  short : StopsShort P (provided t).size (t.buckets.flatten.length + 1) (P.meets (arrayRequests t ++ [sizeofBucket]) s).2

instance (t : Table V) (key : List UInt8) (s : P.State) : Decidable (Abandons P t key s) :=
  decidable_of_iff (probe t key = none ∧ (P.meets (arrayRequests t ++ [sizeofBucket]) s).1 = true ∧ loaded (provided t) = true ∧
      StopsShort P (provided t).size (t.buckets.flatten.length + 1) (P.meets (arrayRequests t ++ [sizeofBucket]) s).2)
    ⟨fun ⟨new, linked, loaded, short⟩ => ⟨new, linked, loaded, short⟩,
      fun short => ⟨short.new, short.linked, short.loaded, short.short⟩⟩

/-- **One call**: what is missing behind it is what was, and the larger array if it is abandoned. -/
theorem set_obtained (stocked : Stocked t) {key : List UInt8} {value : V} {r : Bool × Table V}
    (run : set t (some key) value s = .ok (r, s')) (missing : Missing t s lost) :
    Booked (Abandons P.metered t key s) (sizeofPointer * (2 * (provided t).size)) lost r.2 s' := by
  obtain ⟨first, s₁, array, run⟩ := exists_of_run_bind run
  rcases provide_obtained stocked array missing with ⟨refused, rfl, missing⟩ | ⟨met, rfl, stocked', missing⟩
  · cases run
    refine .of_missing stocked (fun short => ?_) missing
    have linked := short.linked
    rw [meets_append, if_neg (by rw [refused]; exact Bool.false_ne_true), refused] at linked
    exact Bool.false_ne_true linked
  · have after : P.metered.meets (arrayRequests t ++ [sizeofBucket]) s = P.metered.meets [sizeofBucket] s₁ := by
      rw [meets_append, met, if_pos rfl]
    dsimp only at run
    rw [if_pos rfl] at run
    cases found : (provided t).buckets[slot (computeHash key) (provided t).size]? with
    | none =>
      rw [found] at run
      cases run
    | some chain =>
      rw [found] at run
      dsimp only at run
      have search := @overwrite_eq_none_iff _ _ key value chain found
      rw [stocked.probe_provided] at search
      cases overwritten : overwrite (computeHash key) key value chain with
      | some chain' =>
        rw [overwritten] at run
        cases run
        refine .of_missing ?_ (fun short => ?_) missing
        · exact ⟨stocked'.rounded, Or.inr (stocked'.power found), stocked'.count.trans (length_flatten_overwrite found overwritten).symm⟩
        · rw [search.mpr short.new] at overwritten
          cases overwritten
      | none =>
        rw [overwritten] at run
        obtain ⟨k, bits, power⟩ := stocked'.power found
        refine (append_obtained stocked' bits power found run missing).congr ?_
        rw [stocked.nodes_provided, ← after]
        constructor
        · intro short
          exact ⟨short.linked, short.loaded, short.short⟩
        · intro short
          obtain ⟨linked, loaded, short⟩ := short
          exact ⟨search.mp overwritten, linked, loaded, short⟩

/-- A table without slots is not loaded. -/
theorem Abandons.pos {key : List UInt8} {s : P.State} (short : Abandons P t key s) : 0 < (provided t).size := by
  have loaded := short.loaded
  rw [Hashtable.loaded, needsResize, Bool.and_eq_true, decide_eq_true_eq] at loaded
  by_contra none
  have asked := loaded.2
  dsimp only at asked
  rw [Nat.eq_zero_of_not_pos none, Nat.div_zero] at asked
  exact absurd asked (by decide)

theorem Booked.exact_iff {Q : Platform} {q : Q.State} {key : List UInt8} {t' : Table V}
    (h : Booked (Abandons Q t key q) (sizeofPointer * (2 * (provided t).size)) 0 t' s') : Exact t' s' ↔ ¬Abandons Q t key q := by
  constructor
  · intro exact_ short
    have missing := h.short short
    have pos := short.pos
    rw [Exact, Missing, Nat.add_zero] at exact_
    rw [Missing, ← exact_, sizeofPointer] at missing
    omega
  · exact h.through

/-! ## Runs -/

/-- A table that is initialised, with nothing obtained. -/
def Begins (x : Table V × P.metered.State) : Prop :=
  ∃ preallocate resize state, x = (init preallocate resize, unmetered state)

/-- A call of `sl_hashtable_set` that is allowed, whatever it returns. -/
def Sets (allowed : Table V → List UInt8 → P.metered.State → Prop) (x x' : Table V × P.metered.State) : Prop :=
  ∃ key value returned, allowed x.1 key x.2 ∧ set x.1 (some key) value x.2 = .ok ((returned, x'.1), x'.2)

theorem stocked_init (preallocate : Nat) (resize : Bool) : Stocked (init preallocate resize : Table V) :=
  ⟨⟨preallocate, rfl⟩, Or.inl ⟨rfl, rfl⟩, rfl⟩

theorem exact_init (preallocate : Nat) (resize : Bool) (state : P.State) :
    Exact (init preallocate resize : Table V) (unmetered state : P.metered.State) := rfl

variable {x : Table V × P.metered.State}

/-- **The accounts never say too much**, whatever is abandoned. -/
theorem missing_of_reached (h : Reached Begins (Sets fun _ _ _ => True) x) : Stocked x.1 ∧ ∃ lost, Missing x.1 x.2 lost := by
  apply h.invariant
  · intro x first
    obtain ⟨preallocate, resize, state, rfl⟩ := first
    exact ⟨stocked_init preallocate resize, 0, exact_init preallocate resize state⟩
  · intro x x' before call
    obtain ⟨stocked, lost, missing⟩ := before
    obtain ⟨key, value, returned, -, run⟩ := call
    have booked := set_obtained stocked run missing
    by_cases short : Abandons P.metered x.1 key x.2
    · exact ⟨booked.stocked, _, booked.short short⟩
    · exact ⟨booked.stocked, _, booked.through short⟩

/-- **The accounts are exact as long as no resize is abandoned at a node.** In every state of such a run
the octets obtained are those in use and those wasted; and behind every further call they are if and
only if it is not abandoned so. -/
theorem waste_exact_iff (h : Reached Begins (Sets fun t key s => ¬Abandons P.metered t key s) x) :
    Exact x.1 x.2 ∧ ∀ key value r s', set x.1 (some key) value x.2 = .ok (r, s') →
      (Exact r.2 s' ↔ ¬Abandons P.metered x.1 key x.2) := by
  have kept : Stocked x.1 ∧ Exact x.1 x.2 := by
    apply h.invariant
    · intro x first
      obtain ⟨preallocate, resize, state, rfl⟩ := first
      exact ⟨stocked_init preallocate resize, exact_init preallocate resize state⟩
    · intro x x' before call
      obtain ⟨stocked, exact_⟩ := before
      obtain ⟨key, value, returned, clean, run⟩ := call
      have booked := set_obtained stocked run exact_
      exact ⟨booked.stocked, booked.through clean⟩
  refine ⟨kept.2, fun key value r s' run => ?_⟩
  exact (set_obtained kept.1 run kept.2).exact_iff

/-- What a call leaves. -/
def behind (x : Table V × P.metered.State) (key : List UInt8) (value : V) : Table V × P.metered.State :=
  match set x.1 (some key) value x.2 with
  | .ok (r, s) => (r.2, s)
  | .error _ => x

theorem Sets.behind {allowed : Table V → List UInt8 → P.metered.State → Prop} {key : List UInt8} {value : V}
    (here : allowed x.1 key x.2) (returns : (set x.1 (some key) value x.2).isOk = true) :
    Sets allowed x (Hashtable.behind x key value) := by
  cases run : set x.1 (some key) value x.2 with
  | error e =>
    rw [run] at returns
    cases returns
  | ok r => exact ⟨key, value, r.1.1, here, by rw [Hashtable.behind, run]⟩

/-- The platform on which the fifth request is refused. -/
def fifthRefused : Platform := Platform.refusing fun count => count = 4

/-- Two keys in a table that began with one slot. The table was made larger for each of them, and the
node of the second was refused at first. -/
def twoKeys : Table Nat × fifthRefused.metered.State :=
  behind (behind (behind (oneSlot, unmetered (0 : Nat)) [65] 1) [66] 2) [66] 3

theorem reached_twoKeys : Reached Begins (Sets fun t key s => ¬Abandons fifthRefused.metered t key s) twoKeys := by
  have begins : Begins ((oneSlot, unmetered (0 : Nat)) : Table Nat × fifthRefused.metered.State) := ⟨1, true, (0 : Nat), rfl⟩
  refine .step (.step (.step (.first begins) (.behind ?_ ?_)) (.behind ?_ ?_)) (.behind ?_ ?_) <;> decide +kernel

theorem waste_exact_iff_two_keys :
    Exact twoKeys.1 twoKeys.2 ∧ ∀ key value r s', set twoKeys.1 (some key) value twoKeys.2 = .ok (r, s') →
      (Exact r.2 s' ↔ ¬Abandons fifthRefused.metered twoKeys.1 key twoKeys.2) :=
  waste_exact_iff reached_twoKeys

example : (obtained twoKeys.2, twoKeys.1.size, twoKeys.1.count, twoKeys.1.wasted) = (216, 4, 2, 120) := by decide +kernel

/-- The platform on which the fourth request is refused. -/
def fourthRefused : Platform := Platform.refusing fun count => count = 3

/-- A table for one slot that has obtained nothing. -/
def unstocked : Table Nat × fourthRefused.metered.State := (oneSlot, unmetered (0 : Nat))

theorem begins_unstocked : Begins unstocked := ⟨1, true, (0 : Nat), rfl⟩

/-- The array, the node and the larger array are met, and the node is not made anew: of the 56 octets
obtained, the 16 of the larger array are neither in use nor wasted. -/
theorem array_neither_used_nor_wasted :
    ((set oneSlot (some [65]) 1 unstocked.2).map fun r => (r.1.1, obtained r.2, r.1.2.size, r.1.2.count, r.1.2.wasted)) =
        .ok (false, 56, 1, 1, 0) ∧
      ¬∀ x : Table Nat × fourthRefused.metered.State, Reached Begins (Sets fun _ _ _ => True) x → Exact x.1 x.2 := by
  have outcome : ((set oneSlot (some [65]) 1 unstocked.2).map fun r =>
      (r.1.1, obtained r.2, r.1.2.size, r.1.2.count, r.1.2.wasted)) = .ok (false, 56, 1, 1, 0) := by decide +kernel
  refine ⟨outcome, fun exact_ => ?_⟩
  cases run : set oneSlot (some [65]) 1 unstocked.2 with
  | error e =>
    rw [run] at outcome
    cases outcome
  | ok r =>
    obtain ⟨⟨returned, t⟩, s⟩ := r
    rw [run] at outcome
    have here := exact_ (t, s) (.step (.first begins_unstocked) ⟨[65], 1, returned, trivial, run⟩)
    obtain ⟨-, got, size, count, wasted⟩ : _ ∧ obtained s = 56 ∧ t.size = 1 ∧ t.count = 1 ∧ t.wasted = 0 := by
      simpa [Except.map] using outcome
    rw [Exact, Missing, got, size, count, wasted] at here
    exact absurd here (by decide)

end Cpptrw.Hashtable
