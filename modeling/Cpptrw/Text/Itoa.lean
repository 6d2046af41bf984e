import Cpptrw.Lib.Buffer
import Cpptrw.Lib.Word
import Mathlib.Data.Nat.Digits.Lemmas

/-!
# Decimal digits (`sl_string_itoa`)

The digits are produced from the end of the buffer towards its front and then
moved to the front in place. `itoa_spec` says what the buffer starts with
afterwards: the decimal digits of the value, none for zero.
-/

namespace Cpptrw.Text

open Lib

/-- The first loop of `sl_string_itoa`: the buffer, the index `length` and the
digit count when the loop is left. `length-- > 0` is evaluated only while
there is a digit left, and wraps at zero. -/
def itoaDigits : Nat → Buffer → Nat → Nat → Except Fault (Buffer × Nat × Nat)
  | 0, buffer, value, count => .ok (buffer, if 0 < value then sub64 0 1 else 0, count)
  | length + 1, buffer, value, count =>
    if 0 < value then do
      let buffer ← buffer.store length (48 + value % 10).toUInt8
      itoaDigits length buffer (value / 10) (count + 1)
    else .ok (buffer, length + 1, count)

/-- The second loop, `buffer[n] = buffer[n + length]` for the next `todo` indices from `n`. -/
def itoaShift (length : Nat) : Nat → Nat → Buffer → Except Fault Buffer
  | 0, _, buffer => .ok buffer
  | todo + 1, n, buffer => do
    let octet ← buffer.load (wrap64 (n + length))
    let buffer ← buffer.store n octet
    itoaShift length todo (n + 1) buffer

/-- `sl_string_itoa`: the number of digits, and the buffer. -/
def itoa (value : Nat) (buffer : Buffer) (length : Nat) : Except Fault (Nat × Buffer) := do
  let (buffer, length, count) ← itoaDigits length buffer value 0
  let buffer ← itoaShift length count 0 buffer
  pure (count, buffer)

def digitOctet (d : Nat) : UInt8 := (48 + d).toUInt8

/-- The decimal digits of a value, none for zero. -/
def decimal (value : Nat) : List UInt8 := (Nat.digits 10 value).reverse.map digitOctet

theorem length_decimal (value : Nat) : (decimal value).length = (Nat.digits 10 value).length := by
  simp [decimal]

/-- A 64-bit value has at most twenty digits. -/
theorem length_decimal_le {value : Nat} (h : value < 2 ^ 64) : (decimal value).length ≤ 20 := by
  rw [length_decimal, Nat.digits_length_le_iff (by decide)]
  omega

theorem decimal_pos {value : Nat} (h : 0 < value) : decimal value = decimal (value / 10) ++ [digitOctet (value % 10)] := by
  simp [decimal, Nat.digits_def' (by decide : 1 < 10) h]

/-- The first loop leaves the digits at the end of the buffer, whatever was in it. -/
theorem itoaDigits_spec {front : Buffer} : ∀ {value : Nat} (count : Nat) (behind : Buffer), (decimal value).length ≤ front.length →
    itoaDigits front.length (front ++ behind) value count =
      .ok (front.take (front.length - (decimal value).length) ++ ((decimal value).map some ++ behind),
        front.length - (decimal value).length, count + (decimal value).length) := by
  induction front using List.reverseRecOn with
  | nil =>
    intro value count behind fits
    rcases Nat.eq_zero_or_pos value with rfl | pos
    · simp [itoaDigits, decimal]
    · rw [decimal_pos pos] at fits
      simp at fits
  | append_singleton front last ih =>
    intro value count behind fits
    rw [List.length_append, List.length_singleton] at fits ⊢
    rcases Nat.eq_zero_or_pos value with rfl | pos
    · rw [itoaDigits, if_neg (Nat.lt_irrefl 0)]
      simp [decimal, List.take_of_length_le]
    · -- the digit goes into the last octet, and the others in front of it
      have length : (decimal value).length = (decimal (value / 10)).length + 1 := by
        rw [decimal_pos pos, List.length_append, List.length_singleton]
      have less : front.length + 1 - (decimal value).length = front.length - (decimal (value / 10)).length := by omega
      have rest := ih (count + 1) (some (digitOctet (value % 10)) :: behind) (show (decimal (value / 10)).length ≤ front.length by omega)
      rw [itoaDigits, if_pos pos, List.append_assoc, List.singleton_append, Buffer.store_at]
      refine rest.trans ?_
      rw [less, List.take_append_of_le_length (Nat.sub_le ..), length, decimal_pos pos]
      simp [Nat.add_assoc, Nat.add_comm 1]

/-- The octets of a buffer are known over a range of indices. -/
def Holds (buffer : Buffer) (offset : Nat) (xs : List UInt8) (lo hi : Nat) : Prop :=
  ∀ i, lo ≤ i → i < hi → buffer[offset + i]? = xs[i]?.map some

/-- The move to the front: sources are read before they can be overwritten. -/
theorem itoaShift_spec (length : Nat) (xs : List UInt8) (small : xs.length + length < 2 ^ 64) :
    ∀ todo n buffer, n + todo = xs.length → length + xs.length ≤ buffer.length →
      Holds buffer 0 xs 0 n → Holds buffer length xs n xs.length →
      ∃ buffer', itoaShift length todo n buffer = .ok buffer' ∧ buffer'.length = buffer.length ∧
        Holds buffer' 0 xs 0 xs.length := by
  intro todo
  induction todo with
  | zero =>
    intro n buffer at_end _ front _
    exact ⟨buffer, rfl, rfl, by rwa [← show n = xs.length by omega]⟩
  | succ todo ih =>
    intro n buffer left room front back
    have source := back n (Nat.le_refl n) (by omega)
    rw [List.getElem?_eq_getElem (by omega : n < xs.length)] at source
    have loaded : buffer.load (wrap64 (n + length)) = .ok xs[n] := by
      rw [wrap64_of_lt (by omega), Nat.add_comm, Buffer.load, source]
      rfl
    have stored : buffer.store n xs[n] = .ok (buffer.set n (some xs[n])) := by
      rw [Buffer.store, if_pos (by omega)]
    obtain ⟨buffer', run, size, holds⟩ := ih (n + 1) (buffer.set n (some xs[n])) (by omega) (by simpa using room)
      (by
        intro i _ hi
        rw [Nat.zero_add, List.getElem?_set]
        by_cases here : n = i
        · subst here
          rw [if_pos rfl, if_pos (by omega), List.getElem?_eq_getElem (by omega : n < xs.length)]
          rfl
        · rw [if_neg here]
          have := front i (Nat.zero_le i) (by omega)
          rwa [Nat.zero_add] at this)
      (by
        intro i lo hi
        rw [List.getElem?_set, if_neg (by omega)]
        exact back i (by omega) hi)
    refine ⟨buffer', ?_, by simpa using size, holds⟩
    rw [itoaShift, loaded]
    change (buffer.store n xs[n] >>= _) = _
    rw [stored]
    exact run

theorem read_of_holds {xs : List UInt8} : ∀ {buffer : Buffer}, Holds buffer 0 xs 0 xs.length →
    buffer.read xs.length = .ok xs := by
  induction xs with
  | nil => intro buffer _; cases buffer <;> rfl
  | cons x xs ih =>
    intro buffer holds
    have first := holds 0 (Nat.le_refl 0) (by simp)
    cases buffer with
    | nil => simp at first
    | cons cell rest =>
      simp only [Nat.zero_add, List.getElem?_cons_zero, Option.map_some, Option.some.injEq] at first
      subst first
      have tail : Holds rest 0 xs 0 xs.length := by
        intro i _ hi
        have := holds (i + 1) (Nat.zero_le _) (by simpa using hi)
        simpa using this
      simp only [List.length_cons, Buffer.read, ih tail]
      rfl

/-- `sl_string_itoa` leaves the digits at the front of the buffer, whatever was in it. -/
theorem itoa_digits {value : Nat} {front : Buffer} (fits : (decimal value).length ≤ front.length) (small : front.length < 2 ^ 64) :
    ∃ front', itoa value front front.length = .ok ((decimal value).length, front') ∧ front'.length = front.length ∧
      front'.read (decimal value).length = .ok (decimal value) := by
  have digits := @itoaDigits_spec front value 0 [] fits
  simp only [List.append_nil, Nat.zero_add] at digits
  have room : (front.take (front.length - (decimal value).length)).length = front.length - (decimal value).length := by
    rw [List.length_take]
    omega
  have back : Holds (front.take (front.length - (decimal value).length) ++ (decimal value).map some)
      (front.length - (decimal value).length) (decimal value) 0 (decimal value).length := by
    intro i _ hi
    rw [List.getElem?_append_right (by omega), room, Nat.add_sub_cancel_left, List.getElem?_map]
  obtain ⟨front', run, size, holds⟩ := itoaShift_spec (front.length - (decimal value).length) (decimal value)
    (by omega) (decimal value).length 0 _ (Nat.zero_add _) (by rw [List.length_append, room, List.length_map])
    (by intro i _ hi; omega) back
  refine ⟨front', ?_, ?_, read_of_holds holds⟩
  · rw [itoa, digits]
    change (itoaShift _ _ _ _ >>= _) = _
    rw [run]
    rfl
  · rw [size, List.length_append, room, List.length_map]
    omega

/-- **`sl_string_itoa`** on a buffer with room for the digits. -/
theorem itoa_spec {value length : Nat} (fits : (decimal value).length ≤ length) (small : length < 2 ^ 63) :
    ∃ buffer, itoa value (Buffer.fresh length) length = .ok ((decimal value).length, buffer) ∧
      buffer.length = length ∧ buffer.read (decimal value).length = .ok (decimal value) := by
  have size : (Buffer.fresh length).length = length := List.length_replicate
  have here := @itoa_digits value (Buffer.fresh length) (by rwa [size]) (by rw [size]; omega)
  rwa [size] at here

end Cpptrw.Text
