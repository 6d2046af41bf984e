import Cpptrw.Lib.Word
import Mathlib.Order.Bounds.Basic
import Mathlib.Order.Interval.Set.Defs

/-!
# Rounding a size up to a power of two (`sl_arena_pow2_size`)

The bit-smearing loop of the source, on 64-bit words: the decrement of `0` and
the increment of the all-ones word wrap. Every capacity of a string and every
size of a bucket array is a value of this function.
-/

namespace Cpptrw.Arena

open Lib

/-- The six lines `size |= size >> k`. -/
def orShifts (size : Nat) : Nat :=
  let size := size ||| size >>> 1
  let size := size ||| size >>> 2
  let size := size ||| size >>> 4
  let size := size ||| size >>> 8
  let size := size ||| size >>> 16
  let size := size ||| size >>> 32
  size

/-- `sl_arena_pow2_size`. -/
def pow2Size (size : Nat) : Nat := wrap64 (orShifts (sub64 size 1) + 1)

theorem orShifts_eq (x : Nat) : orShifts x = smear x := by
  simp only [orShifts, smear, smearStep, List.foldl_cons, List.foldl_nil]

theorem pow2Size_bits (size : Nat) : pow2Size size = wrap64 (2 ^ (sub64 size 1).size) := by
  have ones := Nat.one_le_two_pow (n := (sub64 size 1).size)
  rw [pow2Size, orShifts_eq, smear_eq (sub64_lt size 1), Nat.sub_add_cancel ones]

/-- In range, the result is the power of two given by the bits of `size - 1`. -/
theorem pow2Size_of_range {size : Nat} (lo : 1 ≤ size) (hi : size ≤ 2 ^ 63) :
    pow2Size size = 2 ^ (size - 1).size ∧ (size - 1).size ≤ 63 := by
  have bits : (size - 1).size ≤ 63 := Nat.size_le.mpr (by omega)
  have small : 2 ^ (size - 1).size < 2 ^ 64 := Nat.pow_lt_pow_right (by decide) (by omega)
  rw [pow2Size_bits, sub64_of_le (by omega) lo, wrap64_of_lt small]
  exact ⟨rfl, bits⟩

theorem pow2Size_zero : pow2Size 0 = 0 := by decide

/-- Above `2 ^ 63` the increment wraps. -/
theorem pow2Size_of_large {size : Nat} (lo : 2 ^ 63 < size) (hi : size < 2 ^ 64) : pow2Size size = 0 := by
  have bits : (size - 1).size = 64 := by
    apply Nat.le_antisymm (Nat.size_le.mpr (by omega))
    exact Nat.lt_size.mpr (by omega)
  rw [pow2Size_bits, sub64_of_le hi (by omega), bits]
  rfl

theorem le_pow2Size {size : Nat} (hi : size ≤ 2 ^ 63) : size ≤ pow2Size size := by
  rcases Nat.eq_zero_or_pos size with rfl | lo
  · exact Nat.zero_le _
  · have := Nat.lt_size_self (size - 1)
    rw [(pow2Size_of_range lo hi).1]
    omega

/-- A power of two is its own rounding. -/
theorem pow2Size_pow {k : Nat} (h : k ≤ 63) : pow2Size (2 ^ k) = 2 ^ k := by
  have lo := Nat.one_le_two_pow (n := k)
  have hi : 2 ^ k ≤ 2 ^ 63 := Nat.pow_le_pow_right (by decide) h
  have le : (2 ^ k - 1).size ≤ k := Nat.size_le.mpr (by omega)
  rw [(pow2Size_of_range lo hi).1]
  apply Nat.le_antisymm (Nat.pow_le_pow_right (by decide) le)
  have := le_pow2Size hi
  rwa [(pow2Size_of_range lo hi).1] at this

/-- Every non-zero result is a power of two below `2 ^ 64`. -/
theorem pow2Size_cases (size : Nat) : pow2Size size = 0 ∨ ∃ k ≤ 63, pow2Size size = 2 ^ k := by
  rw [pow2Size_bits]
  have bits : (sub64 size 1).size ≤ 64 := Nat.size_le.mpr (sub64_lt size 1)
  rcases Nat.lt_or_eq_of_le bits with lt | eq
  · exact Or.inr ⟨_, by omega, wrap64_of_lt (Nat.pow_lt_pow_right (by decide) lt)⟩
  · exact Or.inl (by rw [eq]; rfl)

theorem pow2Size_le (size : Nat) : pow2Size size ≤ 2 ^ 63 := by
  rcases pow2Size_cases size with h | ⟨k, hk, h⟩
  · rw [h]; exact Nat.zero_le _
  · rw [h]; exact Nat.pow_le_pow_right (by decide) hk

/-! ## The least power of two -/

/-- The powers of two that are not below a size. -/
def PowersFrom (size : Nat) : Set Nat := {p | size ≤ p ∧ ∃ k, p = 2 ^ k}

/-- In range, the rounding is the least power of two that is not below the size. -/
theorem isLeast_pow2Size {size : Nat} (lo : 1 ≤ size) (hi : size ≤ 2 ^ 63) : IsLeast (PowersFrom size) (pow2Size size) := by
  refine ⟨⟨le_pow2Size hi, _, (pow2Size_of_range lo hi).1⟩, ?_⟩
  rintro p ⟨above, k, rfl⟩
  have bits : (size - 1).size ≤ k := Nat.size_le.mpr (by omega)
  rw [(pow2Size_of_range lo hi).1]
  exact Nat.pow_le_pow_right (by decide) bits

theorem pow2Size_pow2Size (size : Nat) : pow2Size (pow2Size size) = pow2Size size := by
  rcases pow2Size_cases size with none | ⟨k, small, power⟩
  · rw [none, pow2Size_zero]
  · rw [power, pow2Size_pow small]

/-- The power below the rounding is below the size. -/
theorem pow2Size_lt {size : Nat} (lo : 1 ≤ size) (hi : size ≤ 2 ^ 63) : pow2Size size < 2 * size := by
  obtain ⟨⟨-, k, power⟩, least⟩ := isLeast_pow2Size lo hi
  cases k with
  | zero =>
    rw [power]
    omega
  | succ k =>
    have half : 2 ^ k < size := by
      by_contra above
      have := least ⟨Nat.le_of_not_lt above, k, rfl⟩
      rw [power, Nat.pow_succ] at this
      have := Nat.two_pow_pos k
      omega
    rw [power, Nat.pow_succ]
    omega

/-- **Rounding** over all 64-bit sizes. -/
theorem pow2Size_rounds :
    (∀ size ∈ Set.Icc 1 (2 ^ 63), IsLeast (PowersFrom size) (pow2Size size)) ∧
    (∀ size < 2 ^ 64, size = 0 ∨ 2 ^ 63 < size → pow2Size size = 0) ∧
    MonotoneOn pow2Size (Set.Icc 1 (2 ^ 63)) ∧
    (∀ size ∈ Set.Icc 1 (2 ^ 63), pow2Size (pow2Size size) = pow2Size size) ∧
    ∀ size ∈ Set.Icc 1 (2 ^ 63), pow2Size size < 2 * size := by
  refine ⟨fun size range => isLeast_pow2Size range.1 range.2, ?_, ?_, fun size _ => pow2Size_pow2Size size,
    fun size range => pow2Size_lt range.1 range.2⟩
  · intro size word outside
    rcases outside with rfl | large
    · exact pow2Size_zero
    · exact pow2Size_of_large large word
  · intro size range size' range' le
    obtain ⟨above, power⟩ := (isLeast_pow2Size range'.1 range'.2).1
    exact (isLeast_pow2Size range.1 range.2).2 ⟨le.trans above, power⟩

end Cpptrw.Arena
