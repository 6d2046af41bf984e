import Cpptrw.Fcgi.ParamsRecord

/-!
# The states of the stdin parser

`Stdin P H x p` is to a stdin header what `Params` is to a params header. The
content is one region, filled octet by octet; with padding the record is
complete one octet behind it, and without padding that octet is dispatched on
the finished state, which the `switch` does not know, and is an error.
-/

namespace Cpptrw.Fcgi

open Lib Lib.Prog Text

variable {P : Platform} {H : RecordHeader}

/-- A parser that has a region for the content. -/
def stdinAt (H : RecordHeader) (data : Buffer) (state : ParserState) (counter : Nat) : Parser :=
  { state, readCounter := counter, messageSize := H.contentLength, messageHeader := H.message
    stdinStream := ⟨H.contentLength, some data⟩ }

/-- What the parser is when it has consumed `x` behind a stdin header. -/
inductive Stdin (P : Platform) (H : RecordHeader) : List UInt8 → Parser → Prop
  | start : Stdin P H [] (H.parser .stdinData)
  | data {x : List UInt8} (some : x ≠ []) (fits : x.length ≤ H.contentLength) :
      Stdin P H x (stdinAt H (Buffer.filled x (H.contentLength + 1)) .stdinData (H.contentLength - x.length))
  | padding {x pad : List UInt8} (full : x.length = H.contentLength) (some : pad ≠ [])
      (fits : pad.length ≤ H.paddingLength.toNat) :
      Stdin P H (x ++ pad) (stdinAt H (terminated x) .stdinPadding (H.paddingLength.toNat - pad.length))
  | finished {x pad : List UInt8} {counter : Nat} (full : x.length = H.contentLength)
      (all : pad.length = H.paddingLength.toNat) (padded : H.paddingLength ≠ 0) :
      Stdin P H (x ++ pad) (stdinAt H (terminated x) .finished counter)
  | unpadded {x : List UInt8} {p : Parser} (full : x.length = H.contentLength) (none : H.paddingLength = 0)
      (stuck : p.state = .error) : Stdin P H x p
  | refused {x : List UInt8} {p : Parser} (memory : ¬P.Succeeds) (stuck : p.state = .error) : Stdin P H x p

/-- The parser has a region for the content. -/
def OpensStdin (P : Platform) (p p' : Parser) : Prop :=
  Ensures (Parser.openStdin p : Prog P _) fun r => r = none ∧ ¬P.Succeeds ∨ r = some p'

theorem opensStdin_fresh : OpensStdin P (H.parser .stdinData)
    (stdinAt H (Buffer.filled [] (H.contentLength + 1)) .stdinData H.contentLength) := by
  refine .allocate (.pure (Or.inr ?_)) fun memory => .pure (Or.inl ⟨rfl, memory⟩)
  simp [stdinAt, RecordHeader.parser, RecordHeader.message, Buffer.fresh_eq]

theorem opensStdin_opened {b : Buffer} {state : ParserState} {counter : Nat} :
    OpensStdin P (stdinAt H b state counter) (stdinAt H b state counter) :=
  .pure (Or.inr rfl)

/-- The padding case. -/
theorem keeps_stdinPadding {x pad : List UInt8} (full : x.length = H.contentLength) (padded : H.paddingLength ≠ 0)
    (fits : pad.length ≤ H.paddingLength.toNat) (octet : UInt8) :
    (stdinAt H (terminated x) .stdinPadding (H.paddingLength.toNat - pad.length)).padding.lookahead.Keeps
      (Stdin P H) (x ++ pad) octet := by
  have small := H.paddingLength.toNat_lt
  by_cases all : pad.length = H.paddingLength.toNat
  · rw [Parser.padding_of_zero (show H.paddingLength.toNat - pad.length = 0 by omega)]
    refine keeps_stop ?_ ?_
    · exact Or.inl rfl
    · exact .finished full all padded
  · have left : H.paddingLength.toNat - pad.length - 1 = H.paddingLength.toNat - (pad ++ [octet]).length := by simp; omega
    rw [Parser.padding_of_pos (show 0 < H.paddingLength.toNat - pad.length by omega)
      (show H.paddingLength.toNat - pad.length < 2 ^ 64 by omega)]
    refine keeps_advance (by rintro (h | h) <;> cases h) ?_
    have := Stdin.padding (P := P) full (show pad ++ [octet] ≠ [] by simp) (by simp; omega)
    rwa [← left, ← List.append_assoc] at this

/-- From the end of the content. -/
theorem leads_afterStdin {x : List UInt8} (full : x.length = H.contentLength) (octet : UInt8) (fuel : Nat) :
    (Parser.afterStdin (stdinAt H (terminated x) .stdinData 0)).Leads
      (P := P) (Parser.stdinSwitch octet) (fuel + 1) fun p => p.lookahead.Keeps (Stdin P H) x octet := by
  by_cases padded : H.paddingLength = 0
  · have none : ¬0 < (stdinAt H (terminated x) .stdinData 0).messageHeader.paddingLength := by
      rw [show (stdinAt H (terminated x) .stdinData 0).messageHeader.paddingLength = 0 from padded]
      decide
    rw [Parser.afterStdin, if_neg none]
    refine ensures_pass (.pure ?_)
    rw [Flow.leads_done]
    exact keeps_stop (Or.inr rfl) (.unpadded full padded rfl)
  · have some : 0 < (stdinAt H (terminated x) .stdinData 0).messageHeader.paddingLength :=
      UInt8.pos_iff_ne_zero.mpr padded
    rw [Parser.afterStdin, if_pos some]
    refine ensures_pass (.pure ?_)
    have first := keeps_stdinPadding (P := P) full padded (show ([] : List UInt8).length ≤ _ from Nat.zero_le _) octet
    rwa [List.append_nil] at first

/-- One octet of the content, or the first one behind it. -/
theorem ensures_stdinPass {p : Parser} {x : List UInt8}
    (opens : OpensStdin P p (stdinAt H (Buffer.filled x (H.contentLength + 1)) .stdinData (H.contentLength - x.length)))
    (state : p.state = .stdinData) (fits : x.length ≤ H.contentLength) (octet : UInt8) :
    Ensures (p.parseStdin octet : Prog P Parser) fun p => p.lookahead.Keeps (Stdin P H) x octet := by
  have small := H.contentLength_lt
  refine ensures_pass ?_
  rw [Parser.stdinSwitch, state]
  refine opens.bind fun r hr => ?_
  rcases hr with ⟨rfl, memory⟩ | rfl
  · refine .pure ?_
    rw [Flow.leads_done]
    exact keeps_stop (Or.inr rfl) (.refused memory rfl)
  · dsimp only [stdinAt]
    by_cases full : x.length = H.contentLength
    · rw [if_pos (by omega), ← full]
      simp only [storeAt, store_terminator, read_terminated, lift_ok, pure_bind]
      refine (ensures_log (stdin_matching x)).bind fun _ _ => .pure ?_
      have := leads_afterStdin (P := P) full octet 2
      rw [Nat.sub_self]
      rwa [stdinAt, ← full] at this
    · rw [if_neg (by omega), sub64_of_le (by omega) (by omega), Nat.sub_sub_self fits]
      simp only [storeAt, Buffer.store_filled octet (show x.length < H.contentLength + 1 by omega), lift_ok, pure_bind]
      refine .pure ?_
      rw [Flow.leads_done]
      refine keeps_advance (by rintro (h | h) <;> cases h) ?_
      have next := Stdin.data (P := P) (H := H) (show x ++ [octet] ≠ [] by simp) (by simp; omega)
      rwa [List.length_append] at next

/-- **One octet of a stdin record.** -/
theorem stdin_step {x : List UInt8} {p : Parser} (h : Stdin P H x p) (octet : UInt8) :
    Ensures (p.parseOctet octet : Prog P _) (Verdict.Keeps (Stdin P H) x octet) := by
  cases h with
  | start => exact ensures_lookahead (ensures_stdinPass opensStdin_fresh rfl (Nat.zero_le _) octet)
  | data some fits => exact ensures_lookahead (ensures_stdinPass opensStdin_opened rfl fits octet)
  | @padding _ pad full some fits =>
    have padded : H.paddingLength ≠ 0 := by
      intro zero
      rw [zero] at fits
      exact some (List.eq_nil_of_length_eq_zero (Nat.le_zero.mp fits))
    refine ensures_lookahead (ensures_pass (.pure ?_))
    exact keeps_stdinPadding full padded fits octet
  | finished full all padded => exact .pure (.finished full all padded)
  | unpadded full none stuck =>
    rw [Parser.settling.absorbs p (Or.inr stuck)]
    exact .pure (.unpadded full none stuck)
  | refused memory stuck =>
    rw [Parser.settling.absorbs p (Or.inr stuck)]
    exact .pure (.refused memory stuck)

end Cpptrw.Fcgi
