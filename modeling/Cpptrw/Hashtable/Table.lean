import Cpptrw.Arena.Size
import Cpptrw.Lib.Prog

/-!
# The hash table (`sl_hashtable.c`)

The bucket array is the list of its chains, and a chain is the list of its
nodes; a missing chain is empty. Keys are by value, since a key is not modified
while it is in the table, and values are whatever is stored. Sizes and counts
are 64-bit words.
-/

namespace Cpptrw.Hashtable

open Lib Arena

/-- `sl_hashtable_bucket`. -/
structure Bucket (V : Type) where
  hash : UInt64
  key : List UInt8
  value : V
  deriving DecidableEq, Repr

/-- `sl_hashtable`. -/
structure Table (V : Type) where
  buckets : List (List (Bucket V)) := []
  resize : Bool
  preallocate : Nat
  size : Nat := 0
  count : Nat := 0
  resizes : Nat := 0
  wasted : Nat := 0
  deriving DecidableEq, Repr

/-- `SL_HASHTABLE_MAX_LOAD`. -/
def maxLoad : Nat := 75

/-- `sizeof(sl_hashtable_bucket)`. -/
def sizeofBucket : Nat := 32

/-- `sizeof(sl_hashtable_bucket*)`. -/
def sizeofPointer : Nat := 8

/-- The loop of `sl_hashtable_are_keys_equal`, over keys of one length. -/
def sameOctets : List UInt8 → List UInt8 → Bool
  | a :: as, b :: bs => if a ≠ b then false else sameOctets as bs
  | _, _ => true

/-- `sl_hashtable_are_keys_equal`. -/
def areKeysEqual (keyA keyB : List UInt8) : Bool :=
  if keyA.length ≠ keyB.length then false else sameOctets keyA keyB

/-- A `char`, which is signed, as a word. -/
def charWord (octet : UInt8) : UInt64 := octet.toInt8.toInt64.toUInt64

/-- `sl_hashtable_compute_hash`. -/
def computeHash (key : List UInt8) : UInt64 := key.foldl (fun hash c => charWord c + (hash <<< 5) - hash) 0

/-- `hash & (size - 1)`. -/
def slot (hash : UInt64) (size : Nat) : Nat := hash.toNat &&& sub64 size 1

variable {P : Platform} {V : Type}

/-- `sl_hashtable_create_bucket`. -/
def createBucket (hash : UInt64) (key : List UInt8) (value : V) : Prog P (Option (Bucket V)) := do
  if ← Prog.allocate sizeofBucket then pure (some ⟨hash, key, value⟩) else pure none

/-- The stores of `NULL` to `size` new chains, in a region of so many octets. -/
def clearBuckets (octets size : Nat) : Except Fault (List (List (Bucket V))) :=
  if sizeofPointer * size ≤ octets then .ok (List.replicate size []) else .error .outOfBounds

/-- `sl_hashtable_allocate`; `false` is the return value `-1`. -/
def allocate (t : Table V) (size : Nat) : Prog P (Bool × Table V) := do
  let newPow2Size := pow2Size size
  let newSize := if newPow2Size < t.preallocate then t.preallocate else newPow2Size
  if ← Prog.allocate (wrap64 (sizeofPointer * newSize)) then
    let buckets ← Prog.lift (clearBuckets (wrap64 (sizeofPointer * newSize)) newSize)
    pure (true, { t with buckets, size := newSize, count := 0 })
  else
    pure (false, t)

/-- The loops of `sl_hashtable_resize` over the nodes of the old chains: a node
is made anew at the end of its chain among the new ones. -/
def moveNodes (newSize : Nat) : List (Bucket V) → List (List (Bucket V)) → Nat →
    Prog P (Bool × List (List (Bucket V)) × Nat)
  | [], newBuckets, wasted => pure (true, newBuckets, wasted)
  | node :: nodes, newBuckets, wasted =>
    match newBuckets[slot node.hash newSize]? with
    | none => Prog.fault .outOfBounds
    | some chain => createBucket node.hash node.key node.value >>= fun
      | none => pure (false, newBuckets, wasted)
      | some newNode =>
        moveNodes newSize nodes (newBuckets.set (slot node.hash newSize) (chain ++ [newNode])) (wrap64 (wasted + sizeofBucket))

/-- `sl_hashtable_resize`. -/
def resize (t : Table V) (size : Nat) : Prog P (Bool × Table V) := do
  let newPow2Size := pow2Size size
  if newPow2Size ≤ t.size then pure (true, t)
  else if ← Prog.allocate (wrap64 (sizeofPointer * newPow2Size)) then
    let newBuckets ← Prog.lift (clearBuckets (wrap64 (sizeofPointer * newPow2Size)) newPow2Size)
    let (moved, newBuckets, wasted) ← moveNodes newPow2Size t.buckets.flatten newBuckets t.wasted
    if moved then
      pure (true, { t with
        resizes := wrap64 (t.resizes + 1)
        wasted := wrap64 (wasted + t.size * sizeofPointer)
        buckets := newBuckets
        size := newPow2Size })
    else
      pure (false, { t with wasted })
  else
    pure (false, t)

/-- `sl_hashtable_needs_resize`. -/
def needsResize (t : Table V) : Bool := t.resize && maxLoad ≤ wrap64 (t.count * 100) / t.size

/-- `sl_hashtable_init`. -/
def init (preallocate : Nat) (resize : Bool) : Table V := { preallocate := pow2Size preallocate, resize }

/-- The test both searches make on a node. -/
def isNode (hash : UInt64) (key : List UInt8) (node : Bucket V) : Bool := node.hash = hash && areKeysEqual node.key key

/-- `sl_hashtable_get`: every chain is searched. -/
def get (t : Table V) (key : List UInt8) : Option V :=
  (t.buckets.findSome? fun chain => chain.find? (isNode (computeHash key) key)).map Bucket.value

/-- The search of `sl_hashtable_set` through one chain, which overwrites the node it finds. -/
def overwrite (hash : UInt64) (key : List UInt8) (value : V) : List (Bucket V) → Option (List (Bucket V))
  | [] => none
  | node :: nodes =>
    if isNode hash key node then some ({ node with key, value } :: nodes)
    else (overwrite hash key value nodes).map (node :: ·)

/-- The end of `sl_hashtable_set` when the key is new. An empty chain gets its
first node and another one its last; both are the end of the chain. -/
def append (t : Table V) (hash : UInt64) (key : List UInt8) (value : V) (chain : List (Bucket V)) :
    Prog P (Bool × Table V) :=
  createBucket hash key value >>= fun
  | none => pure (false, t)
  | some bucket =>
    let t := { t with buckets := t.buckets.set (slot hash t.size) (chain ++ [bucket]), count := wrap64 (t.count + 1) }
    if needsResize t then resize t (wrap64 (t.size <<< 1)) else pure (true, t)

/-- The first line of `sl_hashtable_set`. -/
def provide (t : Table V) : Prog P (Bool × Table V) :=
  if t.size = 0 then allocate t t.preallocate else pure (true, t)

/-- `sl_hashtable_set`; `false` is the return value `-1`, and the hash of a key
that is `NULL` is undefined behaviour. -/
def set (t : Table V) (key : Option (List UInt8)) (value : V) : Prog P (Bool × Table V) := do
  let (allocated, t) ← provide t
  if allocated then
    match key with
    | none => Prog.fault .nullPointer
    | some key =>
      match t.buckets[slot (computeHash key) t.size]? with
      | none => Prog.fault .outOfBounds
      | some chain =>
        match overwrite (computeHash key) key value chain with
        | some chain => pure (true, { t with buckets := t.buckets.set (slot (computeHash key) t.size) chain })
        | none => append t (computeHash key) key value chain
  else
    pure (false, t)

/-- A sequence of `sl_hashtable_set` calls, whatever they return. -/
def setAll : Table V → List (List UInt8 × V) → Prog P (Table V)
  | t, [] => pure t
  | t, (key, value) :: assignments => set t (some key) value >>= fun r => setAll r.2 assignments

/-! ## What the operations are made of -/

variable {C : (α : Type) → Prog P α → Prop}

theorem compositional_moveNodes (law : Prog.Compositional P C) (newSize : Nat) (nodes : List (Bucket V)) :
    ∀ (newBuckets : List (List (Bucket V))) (wasted : Nat),
      C _ (moveNodes newSize nodes newBuckets wasted : Prog P _) := by
  induction nodes with
  | nil => exact fun newBuckets wasted => law.pure _
  | cons node nodes ih =>
    intro newBuckets wasted
    rw [moveNodes]
    split
    · exact law.fault _
    · rw [createBucket, bind_assoc]
      refine law.allocating ?_ ?_
      · exact ih _ _
      · exact law.pure _

theorem compositional_resize (law : Prog.Compositional P C) (t : Table V) (size : Nat) :
    C _ (resize t size : Prog P _) := by
  rw [resize]
  split
  · exact law.pure _
  · refine law.allocating ?_ (law.pure _)
    rw [if_pos rfl]
    refine law.bind (law.lift _) fun newBuckets => ?_
    refine law.bind (compositional_moveNodes law _ _ _ _) fun r => ?_
    obtain ⟨moved, newBuckets, wasted⟩ := r
    cases moved with
    | true => exact law.pure _
    | false => exact law.pure _

theorem compositional_append (law : Prog.Compositional P C) (t : Table V) (hash : UInt64) (key : List UInt8) (value : V)
    (chain : List (Bucket V)) : C _ (append t hash key value chain : Prog P _) := by
  rw [append, createBucket, bind_assoc]
  refine law.allocating ?_ (law.pure _)
  rw [if_pos rfl, pure_bind]
  dsimp only
  split
  · exact compositional_resize law _ _
  · exact law.pure _

theorem compositional_set (law : Prog.Compositional P C) (t : Table V) (key : Option (List UInt8)) (value : V) :
    C _ (set t key value : Prog P _) := by
  have provided : C _ (provide t : Prog P _) := by
    unfold provide
    split
    · refine law.allocating ?_ (law.pure _)
      rw [if_pos rfl]
      exact law.bind (law.lift _) fun _ => law.pure _
    · exact law.pure _
  refine law.bind provided fun r => ?_
  dsimp only
  split
  · split
    · exact law.fault _
    · split
      · exact law.fault _
      · split
        · exact law.pure _
        · exact compositional_append law _ _ _ _ _
  · exact law.pure _

end Cpptrw.Hashtable
