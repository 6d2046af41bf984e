import Cpptrw.Hashtable.Table
import Cpptrw.Leftover.Strings

/-!
# The hash table in the arena (`sl_hashtable.c`)

The table with its array and its nodes in memory. A walk along a chain goes on
until it meets `NULL`, or until the run is out of fuel. Behind each function is
what it keeps: the array holds chains of nodes, and nodes have strings.
-/

namespace Cpptrw.Leftover

open Lib Arena Hashtable

/-- `sl_hashtable`. -/
structure SlHashtable where
  buckets : Nat := 0
  resize : Bool
  preallocate : Nat
  size : Nat := 0
  count : Nat := 0
  resizes : Nat := 0
  wasted : Nat := 0
  deriving DecidableEq, Repr

namespace SlHashtable

/-- `sl_hashtable_init`. -/
def init (preallocate : Nat) (resize : Bool) : SlHashtable := { preallocate := pow2Size preallocate, resize }

/-- `sl_hashtable_needs_resize`. -/
def needsResize (t : SlHashtable) : Bool := t.resize && maxLoad ≤ wrap64 (t.count * 100) / t.size

end SlHashtable

/-- `sl_hashtable_are_keys_equal`. -/
def areKeysEqual (S : Setting) (keyA keyB : Nat) : Code Bool := do
  let a ← loadString S keyA
  let b ← loadString S keyB
  if a.length ≠ b.length then pure false
  else
    let octetsA ← load S a.buffer 0 a.length
    let octetsB ← load S b.buffer 0 b.length
    pure (sameOctets octetsA octetsB)

/-- `sl_hashtable_compute_hash`. -/
def computeHash (S : Setting) (key : Nat) : Code Nat := do
  let string ← loadString S key
  let octets ← load S string.buffer 0 string.length
  pure (Hashtable.computeHash octets).toNat

/-- `hash & (size - 1)`. -/
def slotOf (hash size : Nat) : Nat := hash &&& sub64 size 1

/-- `sl_hashtable_create_bucket`. -/
def createBucket (S : Setting) (hash key value : Nat) : Code Nat := do
  let bucket ← allocate S .bucket sizeofBucket
  if bucket = 0 then pure 0
  else
    storeWords S bucket [0, hash, key, value]
    pure bucket

/-- An array for chains, all of them `NULL`. -/
def createSlots (S : Setting) (size : Nat) : Code Nat := do
  let buckets ← allocate S .buckets (wrap64 (sizeofPointer * size))
  if buckets = 0 then pure 0
  else
    storeWords S buckets (List.replicate size 0)
    pure buckets

/-- `for (new_node = new_bucket; new_node->next != NULL; new_node = new_node->next)`. -/
def lastNode (S : Setting) (node : Nat) : Code Nat :=
  Machine.whileLoop (fun node => do
    let next ← load64 S node 0
    pure (if next = 0 then .done node else .next next)) S.fuel node

/-- What `sl_hashtable_resize` does for one node; `false` is the return value `-1`. -/
def moveNode (S : Setting) (newBuckets newSize node : Nat) : Code Bool := do
  let hash ← load64 S node 8
  let key ← load64 S node 16
  let value ← load64 S node 24
  let newBucket ← load64 S newBuckets (8 * slotOf hash newSize)
  if newBucket = 0 then
    let bucket ← createBucket S hash key value
    store64 S newBuckets (8 * slotOf hash newSize) bucket
    pure (bucket ≠ 0)
  else
    let newNode ← lastNode S newBucket
    let bucket ← createBucket S hash key value
    store64 S newNode 0 bucket
    pure (bucket ≠ 0)

/-- One pass of its loop over the nodes of a chain. -/
def movePass (S : Setting) (newBuckets newSize : Nat) : Nat × Nat → Code (Prog.Flow (Nat × Nat) (Bool × Nat))
  | (node, wasted) =>
    if node = 0 then pure (.done (true, wasted))
    else do
      let moved ← moveNode S newBuckets newSize node
      if moved then
        let next ← load64 S node 0
        pure (.next (next, wrap64 (wasted + sizeofBucket)))
      else
        pure (.done (false, wasted))

/-- Its loop over the old chains. -/
def moveChains (S : Setting) (buckets newBuckets newSize : Nat) : List Nat → Nat → Code (Bool × Nat)
  | [], wasted => pure (true, wasted)
  | n :: rest, wasted => do
    let bucket ← load64 S buckets (8 * n)
    let (moved, wasted) ← Machine.whileLoop (movePass S newBuckets newSize) S.fuel (bucket, wasted)
    if moved then moveChains S buckets newBuckets newSize rest wasted
    else pure (false, wasted)

/-- The test both searches make on a node. -/
def isNode (S : Setting) (hash key node : Nat) : Code Bool := do
  let nodeHash ← load64 S node 8
  if nodeHash ≠ hash then pure false
  else
    let nodeKey ← load64 S node 16
    areKeysEqual S nodeKey key

/-- The loop of `sl_hashtable_set`: whether a node has the key, and the node it has looked at last. -/
def findPass (S : Setting) (hash key : Nat) : Nat × Nat → Code (Prog.Flow (Nat × Nat) (Bool × Nat))
  | (node, last) =>
    if node = 0 then pure (.done (false, last))
    else do
      let equal ← isNode S hash key node
      if equal then pure (.done (true, node))
      else
        let next ← load64 S node 0
        pure (.next (next, node))

namespace SlHashtable

/-- `sl_hashtable_allocate`; `false` is the return value `-1`. -/
def allocate (S : Setting) (t : SlHashtable) (size : Nat) : Code (Bool × SlHashtable) := do
  let newPow2Size := pow2Size size
  let newSize := if newPow2Size < t.preallocate then t.preallocate else newPow2Size
  let buckets ← createSlots S newSize
  if buckets = 0 then pure (false, t)
  else pure (true, { t with buckets, size := newSize, count := 0 })

/-- `sl_hashtable_resize`. -/
def resizeTo (S : Setting) (t : SlHashtable) (size : Nat) : Code (Bool × SlHashtable) :=
  let newPow2Size := pow2Size size
  if newPow2Size ≤ t.size then pure (true, t)
  else do
    let newBuckets ← createSlots S newPow2Size
    if newBuckets = 0 then pure (false, t)
    else
      let (moved, wasted) ← moveChains S t.buckets newBuckets newPow2Size (List.range t.size) t.wasted
      if moved then
        pure (true, { t with
          resizes := wrap64 (t.resizes + 1)
          wasted := wrap64 (wasted + t.size * sizeofPointer)
          buckets := newBuckets
          size := newPow2Size })
      else
        pure (false, { t with wasted })

/-- The first line of `sl_hashtable_set`. -/
def provide (S : Setting) (t : SlHashtable) : Code (Bool × SlHashtable) :=
  if t.size = 0 then t.allocate S t.preallocate else pure (true, t)

/-- The end of `sl_hashtable_set` behind a new node. -/
def grow (S : Setting) (t : SlHashtable) : Code (Bool × SlHashtable) :=
  let t := { t with count := wrap64 (t.count + 1) }
  if t.needsResize then t.resizeTo S (wrap64 (t.size <<< 1)) else pure (true, t)

/-- `sl_hashtable_set`. -/
def set (S : Setting) (t : SlHashtable) (key value : Nat) : Code (Bool × SlHashtable) := do
  let (provided, t) ← t.provide S
  if provided then
    let hash ← computeHash S key
    let bucket ← load64 S t.buckets (8 * slotOf hash t.size)
    if bucket = 0 then
      let bucket ← createBucket S hash key value
      if bucket = 0 then pure (false, t)
      else
        store64 S t.buckets (8 * slotOf hash t.size) bucket
        t.grow S
    else
      let (found, node) ← Machine.whileLoop (findPass S hash key) S.fuel (bucket, bucket)
      if found then
        store64 S node 16 key
        store64 S node 24 value
        pure (true, t)
      else
        let bucket ← createBucket S hash key value
        store64 S node 0 bucket
        if bucket = 0 then pure (false, t) else t.grow S
  else
    pure (false, t)

end SlHashtable

/-! ## What they keep -/

variable {S : Setting} {Γ Γ' : Typing} {w w' : World} {key value : Nat}

/-- The array of a table, once there is one, and the size it begins with. -/
structure TableOk (Γ : Typing) (t : SlHashtable) : Prop where
  preallocate : ∃ k ≤ 63, t.preallocate = 2 ^ k
  buckets : t.size = 0 ∨ Γ t.buckets = some (.slots t.size)

theorem TableOk.leads {t : SlHashtable} (h : TableOk Γ t) (leads : Γ.Leads Γ') : TableOk Γ' t :=
  ⟨h.preallocate, h.buckets.imp id leads.slots⟩

/-- A pointer to a string or to a node, or `NULL`. -/
theorem Good.small (sound : S.Sound) (good : Good S Γ w) {P : Nat → Prop} (typed : ∀ a, P a → ∃ k, Γ a = some k) {a : Nat}
    (h : OrNull P a) : a < 2 ^ 64 := by
  rcases h with rfl | h
  · decide
  · obtain ⟨k, here⟩ := typed a h
    exact (good.pointer sound.frame here).2

theorem requestable_slots {k : Nat} (h : k ≤ 63) : Requestable (wrap64 (sizeofPointer * 2 ^ k)) := by
  have eight : sizeofPointer * 2 ^ k = 2 ^ (k + 3) := by
    rw [Nat.pow_add, Nat.mul_comm]
    rfl
  rw [eight]
  rcases Nat.lt_or_ge (k + 3) 63 with small | large
  · have := Nat.pow_le_pow_right (by decide : 0 < 2) (by omega : k + 3 ≤ 62)
    rw [wrap64_of_lt (Nat.lt_of_le_of_lt this (by decide))]
    exact Or.inl this
  · rcases Nat.lt_or_ge k 61 with low | high
    · rw [show k = 60 by omega]
      exact Or.inr rfl
    · have : k = 61 ∨ k = 62 ∨ k = 63 := by omega
      rcases this with rfl | rfl | rfl <;> exact Or.inl (by decide)

theorem slotOf_lt {hash size : Nat} (positive : 0 < size) : slotOf hash size < size := by
  have := @Nat.and_le_right hash (sub64 size 1)
  have : sub64 size 1 ≤ size - 1 := by
    unfold sub64
    rw [show size + (2 ^ 64 - 1) = size - 1 + 2 ^ 64 by omega, Nat.add_mod_right]
    exact Nat.mod_le _ _
  unfold slotOf
  omega

/-! Looking at nodes -/

theorem reads_next (good : Good S Γ w) {a : Nat} (here : Γ.IsBucket a) :
    Reads w (load64 S a 0) fun next => OrNull Γ.IsBucket next := by
  obtain ⟨filled, next, -⟩ := good.holds a _ here
  apply (Reads.load64 (filled.part (by decide : 0 + 8 ≤ 32))).mono
  intro value same
  exact same ▸ next

theorem reads_hash (good : Good S Γ w) {a : Nat} (here : Γ.IsBucket a) : Reads w (load64 S a 8) fun _ => True := by
  obtain ⟨filled, -⟩ := good.holds a _ here
  exact (Reads.load64 (filled.part (by decide : 8 + 8 ≤ 32))).mono fun _ _ => trivial

theorem reads_key (good : Good S Γ w) {a : Nat} (here : Γ.IsBucket a) : Reads w (load64 S a 16) fun key => Γ.IsString key := by
  obtain ⟨filled, -, key, -⟩ := good.holds a _ here
  apply (Reads.load64 (filled.part (by decide : 16 + 8 ≤ 32))).mono
  intro value same
  exact same ▸ key

theorem reads_value (good : Good S Γ w) {a : Nat} (here : Γ.IsBucket a) :
    Reads w (load64 S a 24) fun value => OrNull Γ.IsString value := by
  obtain ⟨filled, -, -, value⟩ := good.holds a _ here
  apply (Reads.load64 (filled.part (by decide : 24 + 8 ≤ 32))).mono
  intro x same
  exact same ▸ value

theorem reads_slot (good : Good S Γ w) {a count i : Nat} (here : Γ a = some (.slots count)) (less : i < count) :
    Reads w (load64 S a (8 * i)) fun bucket => OrNull Γ.IsBucket bucket := by
  obtain ⟨filled, all⟩ := good.holds a _ here
  apply (Reads.load64 (filled.part (by omega : 8 * i + 8 ≤ 8 * count))).mono
  intro value same
  exact same ▸ all i less

theorem reads_areKeysEqual (good : Good S Γ w) {keyA keyB : Nat} (hereA : Γ.IsString keyA) (hereB : Γ.IsString keyB) :
    Reads w (areKeysEqual S keyA keyB) fun _ => True := by
  unfold areKeysEqual
  apply (reads_loadString good hereA).bind
  rintro a ⟨fineA, -⟩
  apply (reads_loadString good hereB).bind
  rintro b ⟨fineB, -⟩
  split
  · exact .pure trivial
  · apply (Reads.octets fineA.filled).bind
    intro octetsA _
    apply (Reads.octets fineB.filled).bind
    intro octetsB _
    exact .pure trivial

theorem reads_computeHash (good : Good S Γ w) (here : Γ.IsString key) : Reads w (computeHash S key) fun _ => True := by
  unfold computeHash
  apply (reads_loadString good here).bind
  rintro string ⟨fine, -⟩
  apply (Reads.octets fine.filled).bind
  intro octets _
  exact .pure trivial

/-- The hash of a key that is `NULL` faults. -/
theorem computeHash_null (S : Setting) : Machine.Runs Same (computeHash S 0) w fun _ _ => False := by
  unfold computeHash loadString
  intro v like
  exact ⟨rfl, like, nofun⟩

theorem reads_lastNode (good : Good S Γ w) {node : Nat} (here : Γ.IsBucket node) :
    Reads w (lastNode S node) fun last => Γ.IsBucket last := by
  apply @Reads.whileLoop _ _ _ _ _ (fun node => Γ.IsBucket node) _ S.fuel node here
  intro node here
  apply (reads_next good here).bind
  intro next there
  split
  · exact .pure here
  · rename_i valid
    exact .pure (there.resolve_left valid)

theorem reads_isNode (good : Good S Γ w) (here : Γ.IsString key) {node : Nat} (there : Γ.IsBucket node) (hash : Nat) :
    Reads w (isNode S hash key node) fun _ => True := by
  unfold isNode
  apply (reads_hash good there).bind
  intro nodeHash _
  split
  · exact .pure trivial
  · apply (reads_key good there).bind
    intro nodeKey keyed
    exact reads_areKeysEqual good keyed here

/-- The search for a key comes back with a node. -/
theorem reads_find (good : Good S Γ w) (here : Γ.IsString key) (hash : Nat) {bucket : Nat} (first : Γ.IsBucket bucket) :
    Reads w (Machine.whileLoop (findPass S hash key) S.fuel (bucket, bucket)) fun r => Γ.IsBucket r.2 := by
  apply @Reads.whileLoop _ _ _ _ _ (fun r => OrNull Γ.IsBucket r.1 ∧ Γ.IsBucket r.2) _ S.fuel (bucket, bucket) ⟨Or.inr first, first⟩
  rintro ⟨node, last⟩ ⟨fine, there⟩
  unfold findPass
  dsimp only
  split
  · exact .pure there
  · rename_i valid
    have isBucket := fine.resolve_left valid
    apply (reads_isNode good here isBucket hash).bind
    intro equal _
    split
    · exact .pure isBucket
    · apply (reads_next good isBucket).bind
      intro next fine'
      exact .pure ⟨fine', isBucket⟩

namespace Keeps

theorem setSlot (good : Good S Γ w) {a count i n : Nat} (here : Γ a = some (.slots count)) (bucket : OrNull Γ.IsBucket n) (small : n < 2 ^ 64) : Keeps S Γ w (store64 S a (8 * i) n) fun _ Γ' _ => Γ' = Γ := by
  obtain ⟨filled, all⟩ := good.holds a _ here
  refine setField good here ⟨filled.put, fun j less' => ?_⟩
  by_cases same : j = i
  · rw [same, World.word_put_self, Nat.mod_eq_of_lt small]
    exact bucket
  · rw [World.word_put_other (by rw [length_toOctets]; omega)]
    exact all j less'

/-- The field of a node that may be replaced, and by what. -/
def Fits (Γ : Typing) (offset n : Nat) : Prop :=
  offset = 0 ∧ OrNull Γ.IsBucket n ∨ offset = 16 ∧ Γ.IsString n ∨ offset = 24 ∧ OrNull Γ.IsString n

theorem setNode (good : Good S Γ w) {a offset n : Nat} (here : Γ.IsBucket a) (fits : Fits Γ offset n) (small : n < 2 ^ 64) :
    Keeps S Γ w (store64 S a offset n) fun _ Γ' _ => Γ' = Γ := by
  obtain ⟨filled, next, key, value⟩ := good.holds a _ here
  have other : ∀ address, address + 8 ≤ a + offset ∨ a + offset + 8 ≤ address →
      (w.put (a + offset) (toOctets 8 n)).word address = w.word address :=
    fun address apart => World.word_put_other (by rwa [length_toOctets])
  have self := World.word_put_self w (a + offset) n
  rw [Nat.mod_eq_of_lt small] at self
  refine setField good here ⟨filled.put, ?_⟩
  rcases fits with ⟨rfl, fine⟩ | ⟨rfl, fine⟩ | ⟨rfl, fine⟩
  · rw [Nat.add_zero] at self other ⊢
    rw [self, other _ (by omega), other _ (by omega)]
    exact ⟨fine, key, value⟩
  · rw [self, other _ (by omega), other _ (by omega)]
    exact ⟨next, fine, value⟩
  · rw [self, other _ (by omega), other _ (by omega)]
    exact ⟨next, key, fine⟩

/-- A new node. -/
theorem createBucket (sound : S.Sound) (good : Good S Γ w) (hash : Nat) (keyed : Γ.IsString key) (valued : OrNull Γ.IsString value) :
    Keeps S Γ w (createBucket S hash key value) fun bucket Γ' _ => OrNull Γ'.IsBucket bucket ∧ bucket < 2 ^ 64 := by
  unfold Leftover.createBucket
  apply (allocate sound good (Or.inl (by decide))).bind
  rintro bucket Γ₁ w₁ good₁ later₁ ⟨rfl, null | ⟨raw, -⟩⟩
  · rw [if_pos null]
    exact .pure good₁ ⟨Or.inl rfl, by decide⟩
  rw [if_neg raw.valid]
  have leads := Typing.Leads.set raw.untyped .bucket
  have small := (good.pointer sound.frame keyed).2
  have small' := good.small sound (fun _ here => ⟨_, here⟩) valued
  have fields := fun i => @World.word_put_words w₁ bucket [0, hash, key, value] i
  have next := fields 0 (by decide : 0 < 4)
  have key' := fields 2 (by decide : 2 < 4)
  have value' := fields 3 (by decide : 3 < 4)
  simp only [List.getElem_cons_zero, List.getElem_cons_succ, Nat.mul_zero, Nat.add_zero] at next key' value'
  rw [Nat.mod_eq_of_lt small] at key'
  rw [Nat.mod_eq_of_lt small'] at value'
  have holds : Kind.bucket.Holds (Typing.set Γ₁ bucket .bucket) (w₁.put bucket (words [0, hash, key, value])) bucket := by
    refine ⟨filled_put w₁ bucket _, Or.inl next, ?_, ?_⟩
    · rw [key']
      exact leads.string keyed
    · rw [value']
      exact valued.mono leads.string
  apply (construct good₁ raw (k := .bucket) (by decide) (length_words _ ▸ Nat.le_refl _) (by simp) holds).bind
  rintro _ _ _ good₂ later₂ ⟨rfl, rfl⟩
  exact .pure good₂ ⟨Or.inr (Typing.set_self ..), raw.small⟩

/-- A new array. -/
theorem createSlots (sound : S.Sound) (good : Good S Γ w) {k : Nat} (h : k ≤ 63) :
    Keeps S Γ w (createSlots S (2 ^ k)) fun buckets Γ' _ => buckets = 0 ∨ Γ' buckets = some (.slots (2 ^ k)) := by
  unfold Leftover.createSlots
  apply (allocate sound good (requestable_slots h)).bind
  rintro buckets Γ₁ w₁ good₁ later₁ ⟨rfl, null | ⟨raw, -⟩⟩
  · rw [if_pos null]
    exact .pure good₁ (Or.inl rfl)
  rw [if_neg raw.valid]
  have count : (List.replicate (2 ^ k) 0).length = 2 ^ k := List.length_replicate
  have positive : 0 < 8 * 2 ^ k := Nat.mul_pos (by decide) (Nat.two_pow_pos k)
  have long : (words (List.replicate (2 ^ k) 0)).length = 8 * 2 ^ k := by rw [length_words, count]
  have holds : (Kind.slots (2 ^ k)).Holds (Typing.set Γ₁ buckets (.slots (2 ^ k))) (w₁.put buckets (words (List.replicate (2 ^ k) 0)))
      buckets := by
    refine ⟨long ▸ filled_put w₁ buckets _, fun i less => Or.inl ?_⟩
    rw [World.word_put_words w₁ buckets (count.symm ▸ less), List.getElem_replicate]
    rfl
  apply (construct good₁ raw (k := .slots (2 ^ k)) positive (Nat.le_of_eq long.symm) (by simp) holds).bind
  rintro _ _ _ good₂ later₂ ⟨rfl, rfl⟩
  exact .pure good₂ (Or.inr (Typing.set_self ..))

/-- One node is made anew in the new array. -/
theorem moveNode (sound : S.Sound) (good : Good S Γ w) {newBuckets newSize node : Nat} (positive : 0 < newSize)
    (array : Γ newBuckets = some (.slots newSize)) (here : Γ.IsBucket node) :
    Keeps S Γ w (moveNode S newBuckets newSize node) fun _ _ _ => True := by
  unfold Leftover.moveNode
  apply Leaves.read (reads_hash good here)
  intro hash _
  apply Leaves.read (reads_key good here)
  intro key keyed
  apply Leaves.read (reads_value good here)
  intro value valued
  apply Leaves.read (reads_slot good array (slotOf_lt positive))
  intro newBucket chain
  split
  · apply (createBucket sound good hash keyed valued).bind
    rintro bucket Γ₁ w₁ good₁ later₁ ⟨fine, small⟩
    apply (setSlot good₁ (later₁.kept _ _ array) fine small).bind
    intro _ Γ₂ w₂ good₂ _ _
    exact .pure good₂ trivial
  · rename_i valid
    apply Leaves.read (reads_lastNode good (chain.resolve_left valid))
    intro newNode last
    apply (createBucket sound good hash keyed valued).bind
    rintro bucket Γ₁ w₁ good₁ later₁ ⟨fine, small⟩
    apply (setNode good₁ (later₁.leads.bucket last) (Or.inl ⟨rfl, fine⟩) small).bind
    intro _ Γ₂ w₂ good₂ _ _
    exact .pure good₂ trivial

theorem movePass (sound : S.Sound) {newBuckets newSize : Nat} (positive : 0 < newSize) (r : Nat × Nat) (Γ : Typing) (w : World)
    (good : Good S Γ w) (ready : Γ newBuckets = some (.slots newSize) ∧ OrNull Γ.IsBucket r.1) :
    Keeps S Γ w (movePass S newBuckets newSize r)
      (Pass (fun r Γ _ => Γ newBuckets = some (.slots newSize) ∧ OrNull Γ.IsBucket r.1) fun _ Γ _ => Γ newBuckets = some (.slots newSize)) := by
  obtain ⟨node, wasted⟩ := r
  obtain ⟨array, fine⟩ := ready
  unfold Leftover.movePass
  dsimp only
  split
  · exact .pure good array
  · rename_i valid
    have here := fine.resolve_left valid
    apply (moveNode sound good positive array here).bind
    intro moved Γ₁ w₁ good₁ later₁ _
    have array₁ := later₁.kept _ _ array
    split
    · apply Leaves.read (reads_next good₁ (later₁.leads.bucket here))
      intro next fine'
      exact .pure good₁ ⟨array₁, fine'⟩
    · exact .pure good₁ array₁

/-- All nodes are. -/
theorem moveChains (sound : S.Sound) {buckets size newBuckets newSize : Nat} (positive : 0 < newSize) :
    ∀ (slots : List Nat) (wasted : Nat) (Γ : Typing) (w : World), (∀ n ∈ slots, n < size) → Good S Γ w →
      Γ buckets = some (.slots size) → Γ newBuckets = some (.slots newSize) →
      Keeps S Γ w (moveChains S buckets newBuckets newSize slots wasted) fun _ _ _ => True
  | [], wasted, Γ, w, _, good, _, _ => .pure good trivial
  | n :: rest, wasted, Γ, w, inside, good, old, array => by
    unfold Leftover.moveChains
    apply Leaves.read (reads_slot good old (inside n List.mem_cons_self))
    intro bucket fine
    apply (Leaves.whileLoop (movePass sound positive) S.fuel (bucket, wasted) Γ w good ⟨array, fine⟩).bind
    rintro ⟨moved, wasted'⟩ Γ₁ w₁ good₁ later₁ array₁
    dsimp only
    split
    · exact moveChains sound positive rest wasted' Γ₁ w₁ (fun m there => inside m (List.mem_cons_of_mem _ there)) good₁
        (later₁.kept _ _ old) array₁
    · exact .pure good₁ trivial

end Keeps

/-! ## The table -/

namespace SlHashtable

theorem tableOk_init {preallocate : Nat} (positive : 0 < pow2Size preallocate) (Γ : Typing) (resize : Bool) :
    TableOk Γ (init preallocate resize) := by
  refine ⟨?_, Or.inl rfl⟩
  rcases pow2Size_cases preallocate with zero | pow
  · omega
  · exact pow

theorem keeps_allocate (sound : S.Sound) (good : Good S Γ w) {t : SlHashtable} (ok : TableOk Γ t) (size : Nat) :
    Keeps S Γ w (t.allocate S size) fun r Γ' _ => TableOk Γ' r.2 ∧ (r.1 = true → 0 < r.2.size) := by
  unfold allocate
  obtain ⟨k, le, pow⟩ := ok.preallocate
  have newSize : ∃ j ≤ 63, (if pow2Size size < t.preallocate then t.preallocate else pow2Size size) = 2 ^ j := by
    split
    · exact ⟨k, le, pow⟩
    · have := Nat.two_pow_pos k
      rcases pow2Size_cases size with zero | pow'
      · omega
      · exact pow'
  dsimp only
  obtain ⟨j, le, same⟩ := newSize
  rw [same]
  apply (Keeps.createSlots sound good le).bind
  rintro buckets Γ₁ w₁ good₁ later₁ made
  split
  · exact .pure good₁ ⟨ok.leads later₁.leads, nofun⟩
  · rename_i valid
    exact .pure good₁ ⟨⟨ok.preallocate, Or.inr (made.resolve_left valid)⟩, fun _ => Nat.two_pow_pos j⟩

theorem keeps_provide (sound : S.Sound) (good : Good S Γ w) {t : SlHashtable} (ok : TableOk Γ t) :
    Keeps S Γ w (t.provide S) fun r Γ' _ => TableOk Γ' r.2 ∧ (r.1 = true → 0 < r.2.size) := by
  unfold provide
  split
  · exact keeps_allocate sound good ok _
  · rename_i some
    exact .pure good ⟨ok, fun _ => Nat.pos_of_ne_zero some⟩

theorem keeps_resizeTo (sound : S.Sound) (good : Good S Γ w) {t : SlHashtable} (ok : TableOk Γ t) (positive : 0 < t.size) (size : Nat) :
    Keeps S Γ w (t.resizeTo S size) fun r Γ' _ => TableOk Γ' r.2 := by
  unfold resizeTo
  dsimp only
  have old := ok.buckets.resolve_left (Nat.pos_iff_ne_zero.mp positive)
  split
  · exact .pure good ok
  · rename_i more
    obtain ⟨k, le, pow⟩ := (pow2Size_cases size).resolve_left (by omega)
    rw [pow]
    apply (Keeps.createSlots sound good le).bind
    rintro newBuckets Γ₁ w₁ good₁ later₁ made
    split
    · exact .pure good₁ (ok.leads later₁.leads)
    · rename_i valid
      have array := made.resolve_left valid
      have inside : ∀ n ∈ List.range t.size, n < t.size := fun n there => List.mem_range.mp there
      apply (Keeps.moveChains sound (Nat.two_pow_pos k) _ t.wasted Γ₁ w₁ inside good₁ (later₁.kept _ _ old) array).bind
      rintro ⟨moved, wasted⟩ Γ₂ w₂ good₂ later₂ _
      dsimp only
      split
      · exact .pure good₂ ⟨ok.preallocate, Or.inr (later₂.kept _ _ array)⟩
      · exact .pure good₂ ⟨ok.preallocate, Or.inr (later₂.kept _ _ (later₁.kept _ _ old))⟩

theorem keeps_grow (sound : S.Sound) (good : Good S Γ w) {t : SlHashtable} (ok : TableOk Γ t) (positive : 0 < t.size) :
    Keeps S Γ w (t.grow S) fun r Γ' _ => TableOk Γ' r.2 := by
  unfold grow
  dsimp only
  have counted : TableOk Γ { t with count := wrap64 (t.count + 1) } := ⟨ok.preallocate, ok.buckets⟩
  split
  · exact keeps_resizeTo sound good counted positive _
  · exact .pure good counted

/-- **`sl_hashtable_set`.** A key that is `NULL` is a fault. -/
theorem keeps_set (sound : S.Sound) (good : Good S Γ w) {t : SlHashtable} (ok : TableOk Γ t) (keyed : OrNull Γ.IsString key)
    (valued : OrNull Γ.IsString value) : Keeps S Γ w (t.set S key value) fun r Γ' _ => TableOk Γ' r.2 := by
  unfold set
  apply (keeps_provide sound good ok).bind
  rintro ⟨provided, t⟩ Γ₁ w₁ good₁ later₁ ⟨ok₁, some⟩
  dsimp only at ok₁ some ⊢
  split
  · rename_i success
    have positive := some success
    have array := ok₁.buckets.resolve_left (Nat.pos_iff_ne_zero.mp positive)
    rcases keyed with rfl | keyed
    · exact Machine.Runs.bind (computeHash_null S) fun _ _ none => none.elim
    have keyed₁ := later₁.leads.string keyed
    have valued₁ := valued.mono later₁.leads.string
    apply Leaves.read (reads_computeHash good₁ keyed₁)
    intro hash _
    apply Leaves.read (reads_slot good₁ array (slotOf_lt positive))
    intro bucket chain
    split
    · apply (Keeps.createBucket sound good₁ hash keyed₁ valued₁).bind
      rintro bucket Γ₂ w₂ good₂ later₂ ⟨fine, small⟩
      split
      · exact .pure good₂ (ok₁.leads later₂.leads)
      · apply (Keeps.setSlot good₂ (later₂.kept _ _ array) fine small).bind
        rintro _ Γ₃ w₃ good₃ later₃ rfl
        exact keeps_grow sound good₃ (ok₁.leads later₂.leads) positive
    · rename_i valid
      have first := chain.resolve_left valid
      apply Leaves.read (reads_find good₁ keyed₁ hash first)
      rintro ⟨found, node⟩ last
      dsimp only at last ⊢
      split
      · apply (Keeps.setNode good₁ last (Or.inr (Or.inl ⟨rfl, keyed₁⟩)) (good.pointer sound.frame keyed).2).bind
        rintro _ Γ₂ w₂ good₂ later₂ rfl
        have small := good.small sound (fun _ here => ⟨_, here⟩) valued
        apply (Keeps.setNode good₂ last (Or.inr (Or.inr ⟨rfl, valued₁⟩)) small).bind
        rintro _ Γ₃ w₃ good₃ later₃ rfl
        exact .pure good₃ ok₁
      · apply (Keeps.createBucket sound good₁ hash keyed₁ valued₁).bind
        rintro bucket Γ₂ w₂ good₂ later₂ ⟨fine, small⟩
        apply (Keeps.setNode good₂ (later₂.leads.bucket last) (Or.inl ⟨rfl, fine⟩) small).bind
        rintro _ Γ₃ w₃ good₃ later₃ rfl
        split
        · exact .pure good₃ (ok₁.leads later₂.leads)
        · exact keeps_grow sound good₃ (ok₁.leads later₂.leads) positive
  · exact .pure good₁ ok₁

end SlHashtable

end Cpptrw.Leftover
