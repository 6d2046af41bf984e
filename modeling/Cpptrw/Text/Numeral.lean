import Cpptrw.Text.Itoa
import Cpptrw.Text.Str

/-!
# Decimal numerals (`sl_string_itoa`, `sl_log_itoa`)

Both functions produce the digits of a number by the same two loops, and the
one of the log puts a NUL behind them. The loops are not entered for zero, which
has a digit all the same: it is the one number that neither of them renders.
-/

namespace Cpptrw.Text

open Lib

/-- `sl_log_itoa`. -/
def logItoa (value : Nat) (buffer : Buffer) (length : Nat) : Except Fault Buffer := do
  let (valueLength, buffer) ← itoa value buffer length
  buffer.store valueLength 0

/-- The decimal numeral of a value. -/
def numeral (value : Nat) : List UInt8 := octetsOf (toString value)

theorem code_digitChar {d : Nat} (h : d < 10) : code d.digitChar = digitOctet d := by
  revert d
  decide

theorem numeral_eq_toDigits (value : Nat) : numeral value = (Nat.toDigits 10 value).map code := by
  rw [numeral, octetsOf, Nat.toString_eq_repr, Nat.toList_repr]

/-- A numeral is the digits of its value, of which zero has none. -/
theorem numeral_of_pos {value : Nat} (pos : 0 < value) : numeral value = decimal value := by
  induction value using Nat.strongRecOn with
  | ind value ih =>
    have last : code (value % 10).digitChar = digitOctet (value % 10) := code_digitChar (Nat.mod_lt _ (by decide))
    rw [decimal_pos pos, numeral_eq_toDigits, Nat.toDigits_eq_if (by decide)]
    split
    · rename_i small
      have none : decimal (value / 10) = [] := by
        rw [Nat.div_eq_of_lt small]
        rfl
      rw [none, ← last, Nat.mod_eq_of_lt small]
      rfl
    · have rest := ih (value / 10) (Nat.div_lt_self pos (by decide)) (by omega)
      rw [numeral_eq_toDigits] at rest
      rw [List.map_append, rest, List.map_singleton, last]

theorem numeral_zero : numeral 0 = [code '0'] := by
  rw [numeral_eq_toDigits, Nat.toDigits_zero]
  rfl

/-! ## Accesses below the length -/

theorem itoaDigits_append {length length' count' : Nat} {buffer' : Buffer} (behind : Buffer) :
    ∀ {buffer : Buffer} {value count : Nat}, itoaDigits length buffer value count = .ok (buffer', length', count') →
      itoaDigits length (buffer ++ behind) value count = .ok (buffer' ++ behind, length', count') := by
  induction length with
  | zero =>
    intro buffer value count h
    rw [itoaDigits] at h ⊢
    cases h
    rfl
  | succ length ih =>
    intro buffer value count h
    rw [itoaDigits] at h ⊢
    split at h
    · rename_i pos
      obtain ⟨next, stored, rest⟩ := exists_of_bind_ok h
      rw [if_pos pos, Buffer.store_append stored]
      exact ih rest
    · rename_i zero
      cases h
      rw [if_neg zero]

theorem itoaShift_append {length todo : Nat} {buffer' : Buffer} (behind : Buffer) :
    ∀ {n : Nat} {buffer : Buffer}, itoaShift length todo n buffer = .ok buffer' →
      itoaShift length todo n (buffer ++ behind) = .ok (buffer' ++ behind) := by
  induction todo with
  | zero =>
    intro n buffer h
    cases h
    rfl
  | succ todo ih =>
    intro n buffer h
    rw [itoaShift] at h ⊢
    obtain ⟨octet, loaded, h⟩ := exists_of_bind_ok h
    obtain ⟨next, stored, rest⟩ := exists_of_bind_ok h
    rw [Buffer.load_append loaded]
    change ((buffer ++ behind).store n octet >>= itoaShift length todo (n + 1)) = _
    rw [Buffer.store_append stored]
    exact ih rest

/-- What is behind the buffer is neither looked at nor changed. -/
theorem itoa_append {value count length : Nat} {buffer buffer' : Buffer} (h : itoa value buffer length = .ok (count, buffer'))
    (behind : Buffer) : itoa value (buffer ++ behind) length = .ok (count, buffer' ++ behind) := by
  rw [itoa] at h ⊢
  obtain ⟨⟨between, length', count'⟩, digits, h⟩ := exists_of_bind_ok h
  obtain ⟨last, shifted, h⟩ := exists_of_bind_ok h
  cases h
  rw [itoaDigits_append behind digits]
  change (itoaShift length' count 0 (between ++ behind) >>= fun buffer => pure (count, buffer)) = _
  rw [itoaShift_append behind shifted]
  rfl

/-! ## Rendering -/

/-- `sl_string_itoa` renders the value: it returns the length of the numeral, which is at the front
of the buffer, and nothing behind the buffer is touched. -/
def Rendered (value : Nat) (buffer : Buffer) : Prop :=
  ∃ buffer', buffer'.length = buffer.length ∧ buffer'.read (numeral value).length = .ok (numeral value) ∧
    ∀ behind, itoa value (buffer ++ behind) buffer.length = .ok ((numeral value).length, buffer' ++ behind)

/-- `sl_log_itoa` stores the numeral and a NUL. -/
def LogRendered (value : Nat) (buffer : Buffer) : Prop :=
  ∃ buffer', buffer'.length = buffer.length ∧ buffer'.read ((numeral value).length + 1) = .ok (numeral value ++ [0]) ∧
    ∀ behind, logItoa value (buffer ++ behind) buffer.length = .ok (buffer' ++ behind)

variable {value : Nat} {buffer : Buffer}

theorem rendered_of_pos (pos : 0 < value) (fits : (numeral value).length ≤ buffer.length) (small : buffer.length < 2 ^ 64) :
    Rendered value buffer := by
  rw [numeral_of_pos pos] at fits
  obtain ⟨buffer', run, size, digits⟩ := itoa_digits fits small
  rw [Rendered, numeral_of_pos pos]
  exact ⟨buffer', size, digits, itoa_append run⟩

/-- An octet behind those that were read. -/
theorem read_set {xs : List UInt8} {buffer : Buffer} (h : buffer.read xs.length = .ok xs) (room : xs.length < buffer.length)
    (octet : UInt8) : Buffer.read (buffer.set xs.length (some octet)) (xs.length + 1) = .ok (xs ++ [octet]) := by
  obtain ⟨-, rest, rfl⟩ := Buffer.exists_of_read h
  cases rest with
  | nil => simp at room
  | cons old rest =>
    have set : (xs.map some ++ old :: rest).set xs.length (some octet) = (xs ++ [octet]).map some ++ rest := by
      rw [List.set_append_right _ _ (by rw [List.length_map]), List.length_map, Nat.sub_self]
      simp
    have size : xs.length + 1 = (xs ++ [octet]).length := by simp
    rw [set, size]
    exact Buffer.read_map_append _ _

theorem logRendered_of_pos (pos : 0 < value) (fits : (numeral value).length < buffer.length) (small : buffer.length < 2 ^ 64) :
    LogRendered value buffer := by
  obtain ⟨buffer', size, digits, run⟩ := rendered_of_pos pos (Nat.le_of_lt fits) small
  have room : (numeral value).length < buffer'.length := size ▸ fits
  have stored : buffer'.store (numeral value).length 0 = .ok (buffer'.set (numeral value).length (some 0)) := by
    rw [Buffer.store, if_pos room]
  refine ⟨_, (List.length_set ..).trans size, read_set digits room 0, ?_⟩
  intro behind
  rw [logItoa, run behind]
  exact Buffer.store_append stored behind

/-- The loops are not entered for zero. -/
theorem itoa_zero (buffer : Buffer) (length : Nat) : itoa 0 buffer length = .ok (0, buffer) := by
  cases length <;> rfl

theorem not_rendered_zero (buffer : Buffer) : ¬Rendered 0 buffer := by
  rintro ⟨buffer', -, -, run⟩
  have here := run []
  rw [itoa_zero, numeral_zero] at here
  cases here

/-- The NUL comes into the place of the digit. -/
theorem not_logRendered_zero (buffer : Buffer) : ¬LogRendered 0 buffer := by
  rintro ⟨buffer', -, digits, run⟩
  have here := run []
  rw [logItoa, itoa_zero] at here
  obtain ⟨-, rest, same⟩ := Buffer.exists_of_read digits
  rw [same, numeral_zero] at here
  change Buffer.store (buffer ++ []) 0 0 = _ at here
  rw [Buffer.store] at here
  split at here
  · cases buffer with
    | nil => cases here
    | cons first tail => simp [code] at here
  · cases here

/-- **The rendering is exact** for every number but zero, in every buffer that is long enough for it. -/
theorem rendered_iff (size : UInt64) (value : UInt32) (buffer : Buffer) (small : buffer.length < 2 ^ 64) :
    ((numeral size.toNat).length ≤ buffer.length → (Rendered size.toNat buffer ↔ size ≠ 0)) ∧
    ((numeral value.toNat).length < buffer.length → (LogRendered value.toNat buffer ↔ value ≠ 0)) := by
  constructor
  · intro fits
    constructor
    · rintro rendered rfl
      exact not_rendered_zero buffer rendered
    · intro some
      exact rendered_of_pos (Nat.pos_of_ne_zero fun zero => some (UInt64.toNat_inj.mp zero)) fits small
  · intro fits
    constructor
    · rintro rendered rfl
      exact not_logRendered_zero buffer rendered
    · intro some
      exact logRendered_of_pos (Nat.pos_of_ne_zero fun zero => some (UInt32.toNat_inj.mp zero)) fits small

theorem rendered_iff_port :
    ((numeral (UInt64.toNat 1024)).length ≤ (Buffer.fresh 20).length → (Rendered (UInt64.toNat 1024) (Buffer.fresh 20) ↔ (1024 : UInt64) ≠ 0)) ∧
    ((numeral (UInt32.toNat 8080)).length < (Buffer.fresh 20).length → (LogRendered (UInt32.toNat 8080) (Buffer.fresh 20) ↔ (8080 : UInt32) ≠ 0)) :=
  rendered_iff 1024 8080 (Buffer.fresh 20) (by decide)

/-- A `size_t` of zero in a buffer for twenty digits. -/
theorem zero_not_rendered :
    itoa 0 (Buffer.fresh 20) 20 = .ok (0, Buffer.fresh 20) ∧ numeral 0 = [code '0'] ∧ ¬Rendered 0 (Buffer.fresh 20) ∧
      logItoa 0 (Buffer.fresh 11) 11 = .ok (some 0 :: Buffer.fresh 10) ∧ ¬LogRendered 0 (Buffer.fresh 11) :=
  ⟨itoa_zero _ _, numeral_zero, not_rendered_zero _, rfl, not_logRendered_zero _⟩

-- The largest value, in a buffer that it fills.
example : itoa (2 ^ 64 - 1) (Buffer.fresh 20) 20 = .ok (20, (octetsOf "18446744073709551615").map some) := by decide +kernel

end Cpptrw.Text
