import Cpptrw.Fcgi.Message
import Cpptrw.Lib.Word

/-!
# The wire format

What a record means, without reference to how the parser reads it: eight octets
of header, and in a params record a sequence of name-value pairs, each preceded
by its two lengths. A length has two encodings and the shorter one is not
compulsory, so the format is a relation between octets and pairs. It is still
uniquely decodable (`splitPair_pair`), and no proper prefix of a pair is a pair
(`PairsOctets.cancel` with `splitPair`).
-/

namespace Cpptrw.Fcgi

open Lib

/-- The eight octets of a record header. -/
structure RecordHeader where
  version : UInt8
  type : UInt8
  requestIdB1 : UInt8
  requestIdB0 : UInt8
  contentLengthB1 : UInt8
  contentLengthB0 : UInt8
  paddingLength : UInt8
  reserved : UInt8
  deriving DecidableEq, Repr

namespace RecordHeader

def octets (H : RecordHeader) : List UInt8 :=
  [H.version, H.type, H.requestIdB1, H.requestIdB0, H.contentLengthB1, H.contentLengthB0, H.paddingLength, H.reserved]

@[simp] theorem length_octets (H : RecordHeader) : H.octets.length = 8 := rfl

def requestId (H : RecordHeader) : Nat := H.requestIdB1.toNat * 256 + H.requestIdB0.toNat

def contentLength (H : RecordHeader) : Nat := H.contentLengthB1.toNat * 256 + H.contentLengthB0.toNat

/-- The octets from this header to the next one. -/
def size (H : RecordHeader) : Nat := 8 + H.contentLength + H.paddingLength.toNat

/-- The header as the parser stores it. -/
def message (H : RecordHeader) : MsgHeader where
  version := H.version
  type := H.type
  requestId := H.requestId
  contentLength := H.contentLength
  paddingLength := H.paddingLength
  reserved := H.reserved

theorem contentLength_lt (H : RecordHeader) : H.contentLength < 2 ^ 16 := by
  have := H.contentLengthB1.toNat_lt
  have := H.contentLengthB0.toNat_lt
  unfold contentLength
  omega

end RecordHeader

/-! ## Pairs -/

/-- An encoded length: one octet below 128, or four octets with the top bit set. -/
inductive LengthOctets : List UInt8 → Nat → Prop
  | short (b : UInt8) (h : b.toNat < 128) : LengthOctets [b] b.toNat
  | long (b3 b2 b1 b0 : UInt8) (h : 128 ≤ b3.toNat) :
      LengthOctets [b3, b2, b1, b0] ((b3.toNat - 128) * 2 ^ 24 + b2.toNat * 2 ^ 16 + b1.toNat * 2 ^ 8 + b0.toNat)

/-- A length is a number of 31 bits. -/
theorem LengthOctets.lt {x : List UInt8} {n : Nat} (h : LengthOctets x n) : n < 2 ^ 31 := by
  cases h with
  | short b h => omega
  | long b3 b2 b1 b0 h =>
    have := b3.toNat_lt
    have := b2.toNat_lt
    have := b1.toNat_lt
    have := b0.toNat_lt
    omega

theorem LengthOctets.ne_nil {x : List UInt8} {n : Nat} (h : LengthOctets x n) : x ≠ [] := by
  cases h <;> simp

structure Pair where
  name : List UInt8
  value : List UInt8
  deriving DecidableEq, Repr

/-- An encoded name-value pair. -/
inductive PairOctets : List UInt8 → Pair → Prop
  | intro {nameLength valueLength : List UInt8} {q : Pair} (name : LengthOctets nameLength q.name.length)
      (value : LengthOctets valueLength q.value.length) :
      PairOctets (nameLength ++ (valueLength ++ (q.name ++ q.value))) q

/-- A concatenation of encoded pairs. -/
inductive PairsOctets : List UInt8 → List Pair → Prop
  | nil : PairsOctets [] []
  | cons {x y : List UInt8} {q : Pair} {qs : List Pair} (first : PairOctets x q) (rest : PairsOctets y qs) :
      PairsOctets (x ++ y) (q :: qs)

def WellFormed (x : List UInt8) : Prop := ∃ qs, PairsOctets x qs

theorem PairOctets.ne_nil {x : List UInt8} {q : Pair} (h : PairOctets x q) : x ≠ [] := by
  obtain ⟨name, -⟩ := h
  simp [name.ne_nil]

theorem PairsOctets.append {x y : List UInt8} {ps qs : List Pair} (hx : PairsOctets x ps) (hy : PairsOctets y qs) :
    PairsOctets (x ++ y) (ps ++ qs) := by
  induction hx with
  | nil => exact hy
  | cons first _ ih =>
    rw [List.append_assoc]
    exact .cons first ih

theorem PairsOctets.single {x : List UInt8} {q : Pair} (h : PairOctets x q) : PairsOctets x [q] := by
  simpa using PairsOctets.cons h .nil

/-! ## Decoding -/

/-- Read a length off the front. -/
def splitLength : List UInt8 → Option (Nat × List UInt8)
  | [] => none
  | b :: rest =>
    if b.toNat < 128 then some (b.toNat, rest)
    else
      match rest with
      | b2 :: b1 :: b0 :: rest =>
        some ((b.toNat - 128) * 2 ^ 24 + b2.toNat * 2 ^ 16 + b1.toNat * 2 ^ 8 + b0.toNat, rest)
      | _ => none

/-- Read a pair off the front. -/
def splitPair (x : List UInt8) : Option (Pair × List UInt8) :=
  (splitLength x).bind fun (n, y) => (splitLength y).bind fun (m, z) =>
    if n + m ≤ z.length then some (⟨z.take n, (z.drop n).take m⟩, z.drop (n + m)) else none

theorem splitLength_length {x : List UInt8} {n : Nat} (h : LengthOctets x n) (rest : List UInt8) :
    splitLength (x ++ rest) = some (n, rest) := by
  cases h with
  | short b h => simp [splitLength, h]
  | long b3 b2 b1 b0 h => simp [splitLength, Nat.not_lt.mpr h]

theorem splitPair_lengths {x y : List UInt8} {n m : Nat} (hx : LengthOctets x n) (hy : LengthOctets y m)
    (z : List UInt8) :
    splitPair (x ++ (y ++ z)) =
      if n + m ≤ z.length then some (⟨z.take n, (z.drop n).take m⟩, z.drop (n + m)) else none := by
  simp only [splitPair, splitLength_length hx, splitLength_length hy, Option.bind_some]

theorem splitPair_none {x : List UInt8} (h : splitLength x = none) : splitPair x = none := by
  rw [splitPair, h, Option.bind_none]

theorem splitPair_none_of_name {x y : List UInt8} {n : Nat} (hx : LengthOctets x n) (h : splitLength y = none) :
    splitPair (x ++ y) = none := by
  simp only [splitPair, splitLength_length hx, h, Option.bind_some, Option.bind_none]

/-- **A pair is read back**, whatever follows it. -/
theorem splitPair_pair {x : List UInt8} {q : Pair} (h : PairOctets x q) (rest : List UInt8) :
    splitPair (x ++ rest) = some (q, rest) := by
  obtain ⟨name, value⟩ := h
  simp only [List.append_assoc]
  rw [splitPair_lengths name value, if_pos (by simp)]
  simp [List.drop_append]

/-- Pairs that have been read can be taken off a well-formed sequence. -/
theorem PairsOctets.cancel {x y : List UInt8} {ps : List Pair} (hx : PairsOctets x ps) (h : WellFormed (x ++ y)) :
    WellFormed y := by
  induction hx with
  | nil => exact h
  | @cons x x' q qs first _ ih =>
    obtain ⟨ps, h⟩ := h
    generalize whole : x ++ x' ++ y = w at h
    cases h with
    | nil => simp [first.ne_nil] at whole
    | cons first' rest =>
      have same := congrArg splitPair whole
      rw [List.append_assoc, splitPair_pair first, splitPair_pair first'] at same
      simp only [Option.some.injEq, Prod.mk.injEq] at same
      exact ih (same.2 ▸ ⟨_, rest⟩)

/-- What does not begin with a pair is not a sequence of pairs. -/
theorem PairsOctets.not_wellFormed {x y : List UInt8} {ps : List Pair} (hx : PairsOctets x ps) (more : y ≠ [])
    (none : splitPair y = none) : ¬WellFormed (x ++ y) := by
  intro h
  obtain ⟨qs, h⟩ := hx.cancel h
  cases h with
  | nil => exact more rfl
  | cons first rest =>
    rw [splitPair_pair first] at none
    cases none

/-- The pairs of a sequence are determined by its octets. -/
theorem PairsOctets.unique {x : List UInt8} {ps : List Pair} (h : PairsOctets x ps) :
    ∀ {qs : List Pair}, PairsOctets x qs → ps = qs := by
  induction h with
  | nil =>
    intro qs h'
    generalize whole : [] = w at h'
    cases h' with
    | nil => rfl
    | cons first _ => simp [first.ne_nil] at whole
  | @cons x y q qs first _ ih =>
    intro qs' h'
    generalize whole : x ++ y = w at h'
    cases h' with
    | nil => simp [first.ne_nil] at whole
    | cons first' rest' =>
      have same := congrArg splitPair whole
      rw [splitPair_pair first, splitPair_pair first'] at same
      simp only [Option.some.injEq, Prod.mk.injEq] at same
      obtain ⟨rfl, rfl⟩ := same
      rw [ih rest']

/-! ## Pairs in the parser's memory -/

/-- Octets and a terminator behind them, all written. -/
def terminated (octets : List UInt8) : Buffer := (octets ++ [0]).map some

/-- A parameter that has been read completely. -/
def Pair.stored (q : Pair) : MsgParam where
  nameLength := q.name.length
  valueLength := q.value.length
  name := some (terminated q.name)
  value := some (terminated q.value)

/-- Writing the terminator. -/
theorem store_terminator (octets : List UInt8) :
    Buffer.store (Buffer.filled octets (octets.length + 1)) octets.length 0 = .ok (terminated octets) := by
  rw [Buffer.store_filled 0 (Nat.lt_succ_self _), terminated, ← Buffer.filled_full, List.length_append]
  rfl

theorem read_terminated (octets : List UInt8) : (terminated octets).read octets.length = .ok octets := by
  rw [terminated, List.map_append]
  exact Buffer.read_map_append octets _

end Cpptrw.Fcgi
