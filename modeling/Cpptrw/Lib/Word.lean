import Mathlib.Data.Nat.Size
import Mathlib.Data.Nat.Bitwise
import Mathlib.Tactic.Common

/-!
# Words of 64 bits, and numbers assembled from octets

Unsigned words are natural numbers, and an operation that can leave the range
wraps explicitly. `smear` copies every bit of a word to all the places below
it, by the usual six shifts; `smear_eq` says what that amounts to. The second
part puts a number together from big-endian octets, first with shifts and
bitwise or, then as the sum it denotes.
-/

namespace Cpptrw.Lib

/-- A 64-bit word: wrap-around of unsigned arithmetic. -/
def wrap64 (n : Nat) : Nat := n % 2 ^ 64

/-- Unsigned subtraction of words. -/
def sub64 (m n : Nat) : Nat := (m + (2 ^ 64 - n)) % 2 ^ 64

theorem wrap64_of_lt {n : Nat} (h : n < 2 ^ 64) : wrap64 n = n := Nat.mod_eq_of_lt h

theorem wrap64_lt (n : Nat) : wrap64 n < 2 ^ 64 := Nat.mod_lt _ (by decide)

theorem sub64_of_le {m n : Nat} (hm : m < 2 ^ 64) (h : n ≤ m) : sub64 m n = m - n := by
  unfold sub64
  omega

theorem sub64_lt (m n : Nat) : sub64 m n < 2 ^ 64 := Nat.mod_lt _ (by decide)

/-! ## Smearing -/

/-- One smearing shift. -/
def smearStep (x w : Nat) : Nat := x ||| x >>> w

/-- Every bit of a 64-bit word, copied to the places below it. -/
def smear (x : Nat) : Nat := [1, 2, 4, 8, 16, 32].foldl smearStep x

/-- If `y` holds at each place the bits of `x` up to `w` places above, one more
shift by `w` doubles the reach. -/
theorem testBit_smearStep {x y w : Nat} (reach : ∀ i, y.testBit i = true ↔ ∃ d < w, x.testBit (i + d) = true) (i : Nat) :
    (smearStep y w).testBit i = true ↔ ∃ d < 2 * w, x.testBit (i + d) = true := by
  simp only [smearStep, Nat.testBit_or, Nat.testBit_shiftRight, Bool.or_eq_true, reach]
  constructor
  · rintro (⟨d, hd, hx⟩ | ⟨d, hd, hx⟩)
    · exact ⟨d, by omega, hx⟩
    · exact ⟨w + d, by omega, by rwa [show i + (w + d) = w + i + d by omega]⟩
  · rintro ⟨d, hd, hx⟩
    by_cases near : d < w
    · exact Or.inl ⟨d, near, hx⟩
    · exact Or.inr ⟨d - w, by omega, by rwa [show w + i + (d - w) = i + d by omega]⟩

theorem testBit_smear (x i : Nat) : (smear x).testBit i = true ↔ ∃ d < 64, x.testBit (i + d) = true := by
  have start : ∀ i, x.testBit i = true ↔ ∃ d < 1, x.testBit (i + d) = true := by
    intro i
    constructor
    · intro h; exact ⟨0, by omega, h⟩
    · rintro ⟨d, hd, h⟩
      rwa [show i + d = i by omega] at h
  have s1 := testBit_smearStep start
  have s2 := testBit_smearStep s1
  have s4 := testBit_smearStep s2
  have s8 := testBit_smearStep s4
  have s16 := testBit_smearStep s8
  exact testBit_smearStep s16 i

/-- A smeared word is all ones up to the highest bit of the word. -/
theorem smear_eq {x : Nat} (h : x < 2 ^ 64) : smear x = 2 ^ x.size - 1 := by
  apply Nat.eq_of_testBit_eq
  intro i
  rw [Nat.testBit_two_pow_sub_one, Bool.eq_iff_iff, testBit_smear, decide_eq_true_eq, Nat.lt_size]
  constructor
  · rintro ⟨d, -, hx⟩
    exact (Nat.pow_le_pow_right (by decide) (Nat.le_add_right i d)).trans (Nat.ge_two_pow_of_testBit hx)
  · intro hx
    obtain ⟨j, hj, bit⟩ := Nat.exists_ge_and_testBit_of_ge_two_pow hx
    have top : j < 64 := by
      by_contra above
      have := Nat.ge_two_pow_of_testBit bit
      have := Nat.pow_le_pow_right (n := 2) (by decide) (Nat.le_of_not_lt above)
      omega
    exact ⟨j - i, by omega, by rwa [show i + (j - i) = j by omega]⟩

/-- A mask of low bits is a remainder. -/
theorem and_pow_sub_one (n k : Nat) : n &&& (2 ^ k - 1) = n % 2 ^ k := Nat.and_two_pow_sub_one_eq_mod n k

/-! ## Numbers from octets -/

theorem or_shift (hi lo k : Nat) (small : lo < 2 ^ k) : hi <<< k ||| lo = hi * 2 ^ k + lo := by
  rw [← Nat.shiftLeft_add_eq_or_of_lt small, Nat.shiftLeft_eq]

/-- Two big-endian octets. -/
theorem be16 (b1 b0 : UInt8) : b1.toNat <<< 8 ||| b0.toNat = b1.toNat * 256 + b0.toNat :=
  or_shift _ _ 8 b0.toNat_lt

/-- Four big-endian octets, or-ed in one by one. -/
theorem be32 (top : Nat) (b2 b1 b0 : UInt8) :
    top <<< 24 ||| b2.toNat <<< 16 ||| b1.toNat <<< 8 ||| b0.toNat =
      top * 2 ^ 24 + b2.toNat * 2 ^ 16 + b1.toNat * 2 ^ 8 + b0.toNat := by
  have h2 := b2.toNat_lt
  have h1 := b1.toNat_lt
  have h0 := b0.toNat_lt
  have e2 : top <<< 24 ||| b2.toNat <<< 16 = (top * 2 ^ 8 + b2.toNat) <<< 16 := by
    rw [or_shift top (b2.toNat <<< 16) 24 (by rw [Nat.shiftLeft_eq]; omega), Nat.shiftLeft_eq, Nat.shiftLeft_eq]
    omega
  have e1 : (top * 2 ^ 8 + b2.toNat) <<< 16 ||| b1.toNat <<< 8 = ((top * 2 ^ 8 + b2.toNat) * 2 ^ 8 + b1.toNat) <<< 8 := by
    rw [or_shift _ (b1.toNat <<< 8) 16 (by rw [Nat.shiftLeft_eq]; omega), Nat.shiftLeft_eq, Nat.shiftLeft_eq]
    omega
  rw [e2, e1, or_shift _ b0.toNat 8 (by omega)]
  omega

/-- Testing the top bit of an octet. -/
theorem top_bit (b : UInt8) : (b &&& 0x80 = 0x80) ↔ 128 ≤ b.toNat := by
  have lt := b.toNat_lt
  rw [← UInt8.toNat_inj, UInt8.toNat_and, show (0x80 : UInt8).toNat = 2 ^ 7 by rfl, Nat.and_two_pow,
    Nat.testBit_eq_decide_div_mod_eq]
  by_cases h : b.toNat / 2 ^ 7 % 2 = 1
  · simp only [h, decide_true, Bool.toNat_true, Nat.one_mul, true_iff]
    omega
  · simp only [h, decide_false, Bool.toNat_false, Nat.zero_mul]
    omega

/-- Clearing the top bit of an octet that has it. -/
theorem low_bits {b : UInt8} (h : 128 ≤ b.toNat) : (b &&& 0x7f).toNat = b.toNat - 128 := by
  have lt := b.toNat_lt
  rw [UInt8.toNat_and, show (0x7f : UInt8).toNat = 2 ^ 7 - 1 by rfl, and_pow_sub_one]
  omega

/-! ## Numbers in memory -/

/-- The low octets of a number, the lowest first. -/
def toOctets : Nat → Nat → List UInt8
  | 0, _ => []
  | count + 1, n => (n % 256).toUInt8 :: toOctets count (n / 256)

/-- The number that these octets are in memory. -/
def ofOctets : List UInt8 → Nat
  | [] => 0
  | octet :: octets => octet.toNat + 256 * ofOctets octets

@[simp] theorem length_toOctets (count n : Nat) : (toOctets count n).length = count := by
  induction count generalizing n with
  | zero => rfl
  | succ count ih => rw [toOctets, List.length_cons, ih]

/-- Reading a number back, as far as the octets go. -/
theorem ofOctets_toOctets (count n : Nat) : ofOctets (toOctets count n) = n % 256 ^ count := by
  induction count generalizing n with
  | zero =>
    rw [Nat.pow_zero, Nat.mod_one]
    rfl
  | succ count ih =>
    have low : ((n % 256).toUInt8).toNat = n % 256 := by
      rw [Nat.toUInt8, UInt8.toNat_ofNat']
      exact Nat.mod_eq_of_lt (Nat.mod_lt _ (by decide))
    rw [toOctets, ofOctets, low, ih, Nat.pow_succ', Nat.mod_mul]

theorem ofOctets_lt (octets : List UInt8) : ofOctets octets < 256 ^ octets.length := by
  induction octets with
  | nil => exact Nat.one_pos
  | cons octet octets ih =>
    have := octet.toNat_lt
    rw [ofOctets, List.length_cons, Nat.pow_succ']
    omega

/-- Words, one behind the other. -/
def words (values : List Nat) : List UInt8 := values.flatMap (toOctets 8)

@[simp] theorem length_words (values : List Nat) : (words values).length = 8 * values.length := by
  induction values with
  | nil => rfl
  | cons value values ih =>
    rw [words, List.flatMap_cons, List.length_append, length_toOctets, ← words, ih, List.length_cons]
    omega

/-- The octets of one of the words. -/
theorem drop_words (values : List Nat) (i : Nat) (h : i < values.length) :
    ((words values).drop (8 * i)).take 8 = toOctets 8 values[i] := by
  induction values generalizing i with
  | nil => exact absurd h (Nat.not_lt_zero i)
  | cons value values ih =>
    rw [words, List.flatMap_cons, ← words]
    cases i with
    | zero => exact List.take_left' (length_toOctets 8 value)
    | succ i =>
      rw [show 8 * (i + 1) = (toOctets 8 value).length + 8 * i by rw [length_toOctets]; omega, List.drop_length_add_append]
      exact ih i (Nat.lt_of_succ_lt_succ h)

end Cpptrw.Lib
