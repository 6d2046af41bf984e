import Cpptrw.Fcgi.Grammar
import Cpptrw.Fcgi.Parser

/-!
# The states of the params parser

`Params P H x p` says what the parser `p` is when it has consumed the octets
`x` behind a params header `H`. It is in the middle of a pair, in the padding,
or done; the pairs before are in the list, the octets of the current one are in
its buffers, and `message_size` runs ahead of the octets by what the pair still
needs. A pair is complete one octet before the parser notices, so the end of
the content is passed unnoticed unless it is the end of a pair: that is
`NotPassed`. `params_step` carries all of it over one octet.
-/

namespace Cpptrw.Fcgi

open Lib Lib.Prog Text

variable {P : Platform} {H : RecordHeader}

/-- The parser with this header and nothing else. -/
def RecordHeader.parser (H : RecordHeader) (state : ParserState) : Parser := { state, messageHeader := H.message }

/-- A parser in a params record. -/
def paramsAt (H : RecordHeader) (params : List MsgParam) (state : ParserState) (counter size : Nat) : Parser :=
  { state, readCounter := counter, messageSize := size, messageHeader := H.message, params }

/-- A parser whose last parameter comes behind pairs that have been read. -/
def pairAt (H : RecordHeader) (done : List Pair) (param : MsgParam) (state : ParserState) (counter size : Nat) : Parser :=
  paramsAt H (done.map Pair.stored ++ [param]) state counter size

@[simp] theorem last_pairAt (done : List Pair) (param : MsgParam) (state : ParserState) (counter size : Nat) :
    (pairAt H done param state counter size).last = .ok param := by
  simp [pairAt, paramsAt, Parser.last]

@[simp] theorem setLast_pairAt (done : List Pair) (param param' : MsgParam) (state : ParserState) (counter size : Nat) :
    (pairAt H done param state counter size).setLast param' = pairAt H done param' state counter size := by
  simp [pairAt, paramsAt, Parser.setLast]

@[simp] theorem readCounter_pairAt (done : List Pair) (param : MsgParam) (state : ParserState) (counter size : Nat) :
    (pairAt H done param state counter size).readCounter = counter := rfl

@[simp] theorem state_pairAt (done : List Pair) (param : MsgParam) (state : ParserState) (counter size : Nat) :
    (pairAt H done param state counter size).state = state := rfl

theorem pairAt_stored (done : List Pair) (q : Pair) (state : ParserState) (counter size : Nat) :
    pairAt H done q.stored state counter size = paramsAt H ((done ++ [q]).map Pair.stored) state counter size := by
  simp [pairAt]

/-- The octets of one pair that have been consumed, and the parser; the pairs
before make up `done` and `size` octets. -/
inductive InPair (H : RecordHeader) (done : List Pair) (size : Nat) : List UInt8 → Parser → Prop
  | nameLengthB2 (b3 : UInt8) (long : 128 ≤ b3.toNat) :
      InPair H done size [b3]
        (pairAt H done { nameLength := (b3.toNat - 128) <<< 24 } .paramNameLengthB2 0 (size + 4))
  | nameLengthB1 (b3 b2 : UInt8) (long : 128 ≤ b3.toNat) :
      InPair H done size [b3, b2]
        (pairAt H done { nameLength := (b3.toNat - 128) <<< 24 ||| b2.toNat <<< 16 } .paramNameLengthB1 0 (size + 4))
  | nameLengthB0 (b3 b2 b1 : UInt8) (long : 128 ≤ b3.toNat) :
      InPair H done size [b3, b2, b1]
        (pairAt H done { nameLength := (b3.toNat - 128) <<< 24 ||| b2.toNat <<< 16 ||| b1.toNat <<< 8 }
          .paramNameLengthB0 0 (size + 4))
  | valueLengthB3 {ln : List UInt8} {n : Nat} (name : LengthOctets ln n) :
      InPair H done size ln (pairAt H done { nameLength := n } .paramValueLengthB3 0 (size + ln.length))
  | valueLengthB2 {ln : List UInt8} {n : Nat} (name : LengthOctets ln n) (b3 : UInt8) (long : 128 ≤ b3.toNat) :
      InPair H done size (ln ++ [b3])
        (pairAt H done { nameLength := n, valueLength := (b3.toNat - 128) <<< 24 } .paramValueLengthB2 0
          (size + ln.length + 4))
  | valueLengthB1 {ln : List UInt8} {n : Nat} (name : LengthOctets ln n) (b3 b2 : UInt8) (long : 128 ≤ b3.toNat) :
      InPair H done size (ln ++ [b3, b2])
        (pairAt H done { nameLength := n, valueLength := (b3.toNat - 128) <<< 24 ||| b2.toNat <<< 16 }
          .paramValueLengthB1 0 (size + ln.length + 4))
  | valueLengthB0 {ln : List UInt8} {n : Nat} (name : LengthOctets ln n) (b3 b2 b1 : UInt8) (long : 128 ≤ b3.toNat) :
      InPair H done size (ln ++ [b3, b2, b1])
        (pairAt H done
          { nameLength := n, valueLength := (b3.toNat - 128) <<< 24 ||| b2.toNat <<< 16 ||| b1.toNat <<< 8 }
          .paramValueLengthB0 0 (size + ln.length + 4))
  | lengths {ln lv : List UInt8} {n m : Nat} (name : LengthOctets ln n) (value : LengthOctets lv m) :
      InPair H done size (ln ++ lv)
        (pairAt H done { nameLength := n, valueLength := m } .paramNameData 0 (size + ln.length + lv.length))
  | name {ln lv : List UInt8} {n m : Nat} (name : LengthOctets ln n) (value : LengthOctets lv m) {xs : List UInt8}
      (some : xs ≠ []) (fits : xs.length ≤ n) :
      InPair H done size (ln ++ (lv ++ xs))
        (pairAt H done { nameLength := n, valueLength := m, name := .some (Buffer.filled xs (n + 1)) } .paramNameData
          (n - xs.length) (size + ln.length + lv.length + n))
  | value {ln lv : List UInt8} {m : Nat} {xs : List UInt8} (name : LengthOctets ln xs.length)
      (value : LengthOctets lv m) {ys : List UInt8} (some : ys ≠ []) (fits : ys.length ≤ m) :
      InPair H done size (ln ++ (lv ++ (xs ++ ys)))
        (pairAt H done
          { nameLength := xs.length, valueLength := m, name := .some (terminated xs)
            value := .some (Buffer.filled ys (m + 1)) }
          .paramValueData (m - ys.length) (size + ln.length + lv.length + xs.length + m))

/-- Inside a pair the parser asks for more. -/
theorem InPair.open {done : List Pair} {size : Nat} {x : List UInt8} {p : Parser} (h : InPair H done size x p) :
    ¬p.Settled := by
  cases h <;> rintro (h | h) <;> cases h

theorem InPair.ne_nil {done : List Pair} {size : Nat} {x : List UInt8} {p : Parser} (h : InPair H done size x p) :
    x ≠ [] := by
  cases h with
  | valueLengthB3 name => exact name.ne_nil
  | lengths name value => simp [name.ne_nil]
  | name name value some fits => simp [name.ne_nil]
  | value name value some fits => simp [name.ne_nil]
  | _ => simp

/-- No well-formed proper prefix of the octets has this length. -/
def NotPassed (c : Nat) (x : List UInt8) : Prop :=
  ∀ x₁ x₂, x = x₁ ++ x₂ → x₂ ≠ [] → WellFormed x₁ → x₁.length ≠ c

theorem NotPassed.nil (c : Nat) : NotPassed c [] := by
  intro x₁ x₂ split more
  simp [(List.nil_eq_append_iff.mp split).2] at more

theorem NotPassed.snoc {c : Nat} {x : List UInt8} (h : NotPassed c x) (here : WellFormed x → x.length ≠ c)
    (octet : UInt8) : NotPassed c (x ++ [octet]) := by
  intro x₁ x₂ split more formed
  rcases List.eq_nil_or_concat x₂ with rfl | ⟨x₂, last, rfl⟩
  · exact absurd rfl more
  · rw [List.concat_eq_append, ← List.append_assoc] at split
    obtain ⟨rfl, -⟩ := List.append_inj' split rfl
    by_cases none : x₂ = []
    · subst none
      rw [List.append_nil] at here
      exact here formed
    · exact h x₁ x₂ rfl none formed

/-- What the parser is when it has consumed `x` behind a params header. -/
inductive Params (P : Platform) (H : RecordHeader) : List UInt8 → Parser → Prop
  | start : Params P H [] (H.parser .paramNameLengthB3)
  | pair {done : List Pair} {xd xp : List UInt8} {p : Parser} (read : PairsOctets xd done)
      (here : InPair H done xd.length xp p) (inside : NotPassed H.contentLength (xd ++ xp)) : Params P H (xd ++ xp) p
  | padding {done : List Pair} {xd pad : List UInt8} (read : PairsOctets xd done) (full : xd.length = H.contentLength)
      (some : pad ≠ []) (fits : pad.length ≤ H.paddingLength.toNat) :
      Params P H (xd ++ pad)
        (paramsAt H (done.map Pair.stored) .paramPadding (H.paddingLength.toNat - pad.length) xd.length)
  | finished {done : List Pair} {xd pad : List UInt8} {counter : Nat} (read : PairsOctets xd done)
      (full : xd.length = H.contentLength) (all : pad.length = H.paddingLength.toNat) :
      Params P H (xd ++ pad) (paramsAt H (done.map Pair.stored) .finished counter xd.length)
  | refused {x : List UInt8} {p : Parser} (memory : ¬P.Succeeds) (stuck : p.state = .error) : Params P H x p

/-! ## Passes of the loop -/

theorem keeps_advance {Inv : List UInt8 → Parser → Prop} {x : List UInt8} {octet : UInt8} {p : Parser}
    (more : ¬p.Settled) (h : Inv (x ++ [octet]) p) : p.lookahead.Keeps Inv x octet := by
  rw [Parser.lookahead, if_neg more]
  exact h

theorem keeps_stop {Inv : List UInt8 → Parser → Prop} {x : List UInt8} {octet : UInt8} {p : Parser}
    (done : p.Settled) (h : Inv x p) : p.lookahead.Keeps Inv x octet := by
  rw [Parser.lookahead, if_pos done]
  exact h

theorem ensures_lookahead {m : Prog P Parser} {Inv : List UInt8 → Parser → Prop} {x : List UInt8} {octet : UInt8}
    (h : Ensures m fun p => p.lookahead.Keeps Inv x octet) :
    Ensures (m >>= fun p => pure p.lookahead) (Verdict.Keeps Inv x octet) :=
  h.bind fun _ h => .pure h

theorem keeps_refused (x : List UInt8) (octet : UInt8) (memory : ¬P.Succeeds) (p : Parser) :
    (Parser.lookahead { p with state := .error }).Keeps (Params P H) x octet :=
  keeps_stop (Or.inr rfl) (.refused memory rfl)

/-- A pass that stays inside the pair. -/
theorem keeps_inside {done : List Pair} {xd xp : List UInt8} {octet : UInt8} {p : Parser} (read : PairsOctets xd done)
    (inside : NotPassed H.contentLength (xd ++ xp)) (short : WellFormed (xd ++ xp) → (xd ++ xp).length ≠ H.contentLength)
    (h : InPair H done xd.length (xp ++ [octet]) p) : p.lookahead.Keeps (Params P H) (xd ++ xp) octet := by
  refine keeps_advance h.open ?_
  rw [List.append_assoc]
  exact .pair read h (by rw [← List.append_assoc]; exact inside.snoc short octet)

/-- The first octet of a pair, behind a boundary that is not the end. -/
theorem ensures_newPair {done : List Pair} {x : List UInt8} (read : PairsOctets x done)
    (inside : NotPassed H.contentLength x) (short : x.length ≠ H.contentLength) (octet : UInt8) (fuel : Nat) :
    Ensures (whileLoop (Parser.paramsSwitch octet) (fuel + 1)
        (paramsAt H (done.map Pair.stored) .paramNameLengthB3 0 x.length) : Prog P Parser) fun p =>
      p.lookahead.Keeps (Params P H) x octet := by
  let p := paramsAt H (done.map Pair.stored) .paramNameLengthB3 0 x.length
  have size : (if p.params = [] then 0 else p.messageSize) = x.length := by
    cases read <;> simp [p, paramsAt]
  have enter : ∀ p, InPair H done x.length [octet] p → p.lookahead.Keeps (Params P H) x octet := by
    intro p h
    have := keeps_inside (P := P) read (by rwa [List.append_nil]) (fun _ => by rwa [List.append_nil]) h
    rwa [List.append_nil] at this
  refine ensures_pass (.allocate ?_ fun memory => .pure (keeps_refused x octet memory _))
  rw [if_pos rfl, size]
  by_cases long : Parser.isLong octet
  · have top := (top_bit octet).mp long
    rw [if_pos long, low_bits top]
    exact .pure (enter _ (.nameLengthB2 octet top))
  · have top : octet.toNat < 128 := by
      have := mt (top_bit octet).mpr long
      omega
    rw [if_neg long]
    exact .pure (enter _ (.valueLengthB3 (.short octet top)))

/-- The parser has a region for the name: it had one, or one is allocated. -/
def OpensName (P : Platform) (p p' : Parser) : Prop :=
  Ensures (Parser.openName p : Prog P _) fun r => r = none ∧ ¬P.Succeeds ∨ r = some p'

theorem opensName_fresh {done : List Pair} {n m : Nat} {state : ParserState} {counter size : Nat} :
    OpensName P (pairAt H done { nameLength := n, valueLength := m } state counter size)
      (pairAt H done { nameLength := n, valueLength := m, name := some (Buffer.filled [] (n + 1)) } state n (size + n)) := by
  simp only [OpensName, Parser.openName, last_pairAt, lift_ok, pure_bind, if_pos, setLast_pairAt]
  exact .allocate (.pure (Or.inr rfl)) fun memory => .pure (Or.inl ⟨rfl, memory⟩)

theorem opensName_opened {done : List Pair} {n m : Nat} {b : Buffer} {state : ParserState} {counter size : Nat} :
    OpensName P (pairAt H done { nameLength := n, valueLength := m, name := some b } state counter size)
      (pairAt H done { nameLength := n, valueLength := m, name := some b } state counter size) := by
  simp only [OpensName, Parser.openName, last_pairAt, lift_ok, pure_bind, reduceCtorEq, if_false]
  exact .pure (Or.inr rfl)

/-- The name case stores an octet, or ends the name and leaves the octet to the value. -/
theorem ensures_paramNameData {p : Parser} {done : List Pair} {n m total : Nat} {xs : List UInt8}
    (opens : OpensName P p (pairAt H done { nameLength := n, valueLength := m, name := some (Buffer.filled xs (n + 1)) }
      .paramNameData (n - xs.length) total)) (fits : xs.length ≤ n) (small : n < 2 ^ 31) (octet : UInt8) :
    Ensures (Parser.paramNameData octet p : Prog P _) fun r =>
      r = .done { p with state := .error } ∧ ¬P.Succeeds ∨
      xs.length < n ∧ r = .done (pairAt H done
        { nameLength := n, valueLength := m, name := some (Buffer.filled (xs ++ [octet]) (n + 1)) }
        .paramNameData (n - (xs ++ [octet]).length) total) ∨
      xs.length = n ∧ r = .next (pairAt H done { nameLength := n, valueLength := m, name := some (terminated xs) }
        .paramValueData 0 total) := by
  refine opens.bind fun r hr => ?_
  rcases hr with ⟨rfl, memory⟩ | rfl
  · exact .pure (Or.inl ⟨rfl, memory⟩)
  · simp only [last_pairAt, readCounter_pairAt, lift_ok, pure_bind, setLast_pairAt]
    by_cases full : xs.length = n
    · subst full
      simp only [Nat.sub_self, if_pos, storeAt, store_terminator, lift_ok, pure_bind]
      exact .pure (Or.inr (Or.inr ⟨trivial, rfl⟩))
    · rw [if_neg (by omega), sub64_of_le (by omega) (by omega), Nat.sub_sub_self fits]
      simp only [storeAt, Buffer.store_filled octet (show xs.length < n + 1 by omega), lift_ok, pure_bind]
      refine .pure (Or.inr (Or.inl ⟨by omega, ?_⟩))
      rw [List.length_append]
      rfl

/-- The parser has a region for the value. -/
def OpensValue (P : Platform) (p p' : Parser) : Prop :=
  Ensures (Parser.openValue p : Prog P _) fun r => r = none ∧ ¬P.Succeeds ∨ r = some p'

theorem opensValue_fresh {done : List Pair} {n m : Nat} {name : Option Buffer} {state : ParserState} {counter size : Nat} :
    OpensValue P (pairAt H done { nameLength := n, valueLength := m, name } state counter size)
      (pairAt H done { nameLength := n, valueLength := m, name, value := some (Buffer.filled [] (m + 1)) } state m
        (size + m)) := by
  simp only [OpensValue, Parser.openValue, last_pairAt, lift_ok, pure_bind, if_pos, setLast_pairAt]
  exact .allocate (.pure (Or.inr rfl)) fun memory => .pure (Or.inl ⟨rfl, memory⟩)

theorem opensValue_opened {done : List Pair} {n m : Nat} {name : Option Buffer} {b : Buffer} {state : ParserState}
    {counter size : Nat} :
    OpensValue P (pairAt H done { nameLength := n, valueLength := m, name, value := some b } state counter size)
      (pairAt H done { nameLength := n, valueLength := m, name, value := some b } state counter size) := by
  simp only [OpensValue, Parser.openValue, last_pairAt, lift_ok, pure_bind, reduceCtorEq, if_false]
  exact .pure (Or.inr rfl)

/-- The value case stores an octet, or ends the pair. -/
theorem ensures_paramValueData {p : Parser} {done : List Pair} {m total : Nat} {xs ys : List UInt8}
    (opens : OpensValue P p (pairAt H done
      { nameLength := xs.length, valueLength := m, name := some (terminated xs), value := some (Buffer.filled ys (m + 1)) }
      .paramValueData (m - ys.length) total)) (fits : ys.length ≤ m) (small : m < 2 ^ 31) (octet : UInt8) :
    Ensures (Parser.paramValueData octet p : Prog P _) fun r =>
      r = .done { p with state := .error } ∧ ¬P.Succeeds ∨
      ys.length < m ∧ r = .done (pairAt H done
        { nameLength := xs.length, valueLength := m, name := some (terminated xs)
          value := some (Buffer.filled (ys ++ [octet]) (m + 1)) }
        .paramValueData (m - (ys ++ [octet]).length) total) ∨
      ys.length = m ∧ r = Parser.afterPair (pairAt H done (Pair.stored ⟨xs, ys⟩) .paramValueData 0 total) := by
  refine opens.bind fun r hr => ?_
  rcases hr with ⟨rfl, memory⟩ | rfl
  · exact .pure (Or.inl ⟨rfl, memory⟩)
  · simp only [last_pairAt, readCounter_pairAt, lift_ok, pure_bind, setLast_pairAt]
    by_cases full : ys.length = m
    · subst full
      simp only [Nat.sub_self, if_pos, storeAt, readAt, store_terminator, read_terminated, lift_ok, pure_bind]
      refine (ensures_log (parameter_matching xs ys)).bind fun _ _ => .pure (Or.inr (Or.inr ⟨trivial, rfl⟩))
    · rw [if_neg (by omega), sub64_of_le (by omega) (by omega), Nat.sub_sub_self fits]
      simp only [storeAt, Buffer.store_filled octet (show ys.length < m + 1 by omega), lift_ok, pure_bind]
      refine .pure (Or.inr (Or.inl ⟨by omega, ?_⟩))
      rw [List.length_append]
      rfl

theorem paramNameLength_pairAt {done : List Pair} {param : MsgParam} {state next : ParserState} {counter size : Nat}
    (octet : UInt8) (shift : Nat) :
    (Parser.paramNameLength octet shift next (pairAt H done param state counter size) : Prog P _) =
      pure (.done (pairAt H done { param with nameLength := param.nameLength ||| octet.toNat <<< shift } next counter
        size)) := by
  simp only [Parser.paramNameLength, last_pairAt, lift_ok, pure_bind, setLast_pairAt]
  rfl

theorem paramValueLength_pairAt {done : List Pair} {param : MsgParam} {state next : ParserState} {counter size : Nat}
    (octet : UInt8) (shift : Nat) :
    (Parser.paramValueLength octet shift next (pairAt H done param state counter size) : Prog P _) =
      pure (.done (pairAt H done { param with valueLength := param.valueLength ||| octet.toNat <<< shift } next counter
        size)) := by
  simp only [Parser.paramValueLength, last_pairAt, lift_ok, pure_bind, setLast_pairAt]
  rfl

theorem paramValueLengthB3_pairAt {done : List Pair} {n counter size : Nat} {state : ParserState} (octet : UInt8) :
    (Parser.paramValueLengthB3 octet (pairAt H done { nameLength := n } state counter size) : Prog P _) =
      pure (.done (if 128 ≤ octet.toNat then
        pairAt H done { nameLength := n, valueLength := (octet.toNat - 128) <<< 24 } .paramValueLengthB2 counter (size + 4)
      else
        pairAt H done { nameLength := n, valueLength := octet.toNat } .paramNameData counter (size + 1))) := by
  simp only [Parser.paramValueLengthB3, last_pairAt, lift_ok, pure_bind, setLast_pairAt]
  by_cases long : 128 ≤ octet.toNat
  · have top : Parser.isLong octet := (top_bit octet).mpr long
    rw [if_pos top, if_pos long, low_bits long]
    rfl
  · have top : ¬Parser.isLong octet := mt (top_bit octet).mp long
    rw [if_neg top, if_neg long]
    rfl

/-! ## One octet -/

/-- The padding case, behind content that is complete. -/
theorem keeps_padding {done : List Pair} {xd pad : List UInt8} (read : PairsOctets xd done)
    (full : xd.length = H.contentLength) (fits : pad.length ≤ H.paddingLength.toNat) (octet : UInt8) :
    (paramsAt H (done.map Pair.stored) .paramPadding (H.paddingLength.toNat - pad.length) xd.length).padding.lookahead.Keeps
      (Params P H) (xd ++ pad) octet := by
  have small := H.paddingLength.toNat_lt
  by_cases all : pad.length = H.paddingLength.toNat
  · rw [Parser.padding_of_zero (show H.paddingLength.toNat - pad.length = 0 by omega)]
    refine keeps_stop ?_ ?_
    · exact Or.inl rfl
    · exact .finished read full all
  · have left : H.paddingLength.toNat - pad.length - 1 = H.paddingLength.toNat - (pad ++ [octet]).length := by simp; omega
    rw [Parser.padding_of_pos (show 0 < H.paddingLength.toNat - pad.length by omega)
      (show H.paddingLength.toNat - pad.length < 2 ^ 64 by omega)]
    refine keeps_advance (by rintro (h | h) <;> cases h) ?_
    have := Params.padding (P := P) read full (show pad ++ [octet] ≠ [] by simp) (by simp; omega)
    rwa [← left, ← List.append_assoc] at this

/-- From the end of a pair: the record is complete, or the octet begins what comes next. -/
theorem leads_afterPair {done : List Pair} {x : List UInt8} (read : PairsOctets x done)
    (inside : NotPassed H.contentLength x) (octet : UInt8) (fuel : Nat) :
    (Parser.afterPair (paramsAt H (done.map Pair.stored) .paramValueData 0 x.length)).Leads
      (P := P) (Parser.paramsSwitch octet) (fuel + 1) fun p => p.lookahead.Keeps (Params P H) x octet := by
  by_cases full : x.length = H.contentLength
  · by_cases none : H.paddingLength = 0
    · rw [Parser.afterPair_finished full none]
      have complete : Params P H (x ++ []) (paramsAt H (done.map Pair.stored) .finished 0 x.length) :=
        .finished read full (by rw [none]; rfl)
      rw [List.append_nil] at complete
      rw [Flow.leads_done]
      exact keeps_stop (Or.inl rfl) complete
    · rw [Parser.afterPair_padding full none]
      refine ensures_pass (.pure ?_)
      have first := keeps_padding (P := P) read full (show ([] : List UInt8).length ≤ _ from Nat.zero_le _) octet
      rwa [List.append_nil] at first
  · rw [Parser.afterPair_more full]
    exact ensures_newPair read inside full octet fuel

/-- Inside a pair that is not complete the parser cannot be at the end of the content. -/
theorem keeps_within {done : List Pair} {xd xp : List UInt8} {octet : UInt8} {p : Parser} (read : PairsOctets xd done)
    (inside : NotPassed H.contentLength (xd ++ xp)) (some : xp ≠ []) (partial_ : splitPair xp = none)
    (h : InPair H done xd.length (xp ++ [octet]) p) : p.lookahead.Keeps (Params P H) (xd ++ xp) octet :=
  keeps_inside read inside (fun formed => absurd formed (read.not_wellFormed some partial_)) h

/-- One octet of a value, from a parser whose name is complete. -/
theorem ensures_valuePass {p : Parser} {done : List Pair} {x xd ln lv xs ys : List UInt8} {m : Nat}
    (read : PairsOctets xd done) (name : LengthOctets ln xs.length) (value : LengthOctets lv m)
    (opens : OpensValue P p (pairAt H done
      { nameLength := xs.length, valueLength := m, name := some (terminated xs), value := some (Buffer.filled ys (m + 1)) }
      .paramValueData (m - ys.length) (xd.length + ln.length + lv.length + xs.length + m)))
    (state : p.state = .paramValueData) (fits : ys.length ≤ m)
    (octets : x = xd ++ (ln ++ (lv ++ (xs ++ ys)))) (inside : NotPassed H.contentLength x) (octet : UInt8) (fuel : Nat) :
    Ensures (whileLoop (Parser.paramsSwitch octet) (fuel + 2) p : Prog P Parser) fun p =>
      p.lookahead.Keeps (Params P H) x octet := by
  subst octets
  refine ensures_pass ?_
  rw [Parser.paramsSwitch, state]
  refine (ensures_paramValueData opens fits value.lt octet).mono fun r hr => ?_
  rcases hr with ⟨rfl, memory⟩ | ⟨short, rfl⟩ | ⟨full, rfl⟩
  · exact keeps_refused _ octet memory _
  · rw [Flow.leads_done]
    refine keeps_within read inside (by simp [name.ne_nil]) ?_ ?_
    · rw [splitPair_lengths name value, if_neg (by simp; omega)]
    · rw [show (ln ++ (lv ++ (xs ++ ys))) ++ [octet] = ln ++ (lv ++ (xs ++ (ys ++ [octet]))) by simp]
      exact .value name value (by simp) (by simp; omega)
  · subst full
    have last : PairOctets (ln ++ (lv ++ (xs ++ ys))) ⟨xs, ys⟩ := @PairOctets.intro ln lv ⟨xs, ys⟩ name value
    have complete := read.append (.single last)
    have total : xd.length + ln.length + lv.length + xs.length + ys.length =
        (xd ++ (ln ++ (lv ++ (xs ++ ys)))).length := by
      simp only [List.length_append]
      omega
    rw [pairAt_stored, total]
    exact leads_afterPair complete inside octet fuel

/-- One octet of a name, or the first one behind it. -/
theorem ensures_namePass {p : Parser} {done : List Pair} {x xd ln lv xs : List UInt8} {n m : Nat}
    (read : PairsOctets xd done) (name : LengthOctets ln n) (value : LengthOctets lv m)
    (opens : OpensName P p (pairAt H done
      { nameLength := n, valueLength := m, name := some (Buffer.filled xs (n + 1)) }
      .paramNameData (n - xs.length) (xd.length + ln.length + lv.length + n)))
    (state : p.state = .paramNameData) (fits : xs.length ≤ n)
    (octets : x = xd ++ (ln ++ (lv ++ xs))) (inside : NotPassed H.contentLength x) (octet : UInt8) (fuel : Nat) :
    Ensures (whileLoop (Parser.paramsSwitch octet) (fuel + 3) p : Prog P Parser) fun p =>
      p.lookahead.Keeps (Params P H) x octet := by
  subst octets
  refine ensures_pass ?_
  rw [Parser.paramsSwitch, state]
  refine (ensures_paramNameData opens fits name.lt octet).mono fun r hr => ?_
  rcases hr with ⟨rfl, memory⟩ | ⟨short, rfl⟩ | ⟨full, rfl⟩
  · exact keeps_refused _ octet memory _
  · rw [Flow.leads_done]
    refine keeps_within read inside (by simp [name.ne_nil]) ?_ ?_
    · rw [splitPair_lengths name value, if_neg (by omega)]
    · rw [show (ln ++ (lv ++ xs)) ++ [octet] = ln ++ (lv ++ (xs ++ [octet])) by simp]
      exact .name name value (by simp) (by simp; omega)
  · subst full
    exact ensures_valuePass read name value opensValue_fresh rfl (Nat.zero_le m) (by simp) inside octet fuel

/-- Inside a pair an octet is stored, or found to lie behind the pair. -/
theorem ensures_inPair {done : List Pair} {xd xp : List UInt8} {p : Parser} (read : PairsOctets xd done)
    (here : InPair H done xd.length xp p) (inside : NotPassed H.contentLength (xd ++ xp)) (octet : UInt8) :
    Ensures (p.parseParams octet : Prog P Parser) fun p => p.lookahead.Keeps (Params P H) (xd ++ xp) octet := by
  have some := here.ne_nil
  have more : ∀ {p' : Parser}, (Parser.paramsSwitch octet p : Prog P _) = pure (.done p') → splitPair xp = none →
      InPair H done xd.length (xp ++ [octet]) p' →
      Ensures (p.parseParams octet : Prog P Parser) fun p => p.lookahead.Keeps (Params P H) (xd ++ xp) octet := by
    intro p' pass partial_ next
    refine ensures_pass ?_
    rw [pass]
    exact .pure (keeps_within read inside some partial_ next)
  cases here with
  | nameLengthB2 b3 long =>
    exact more (paramNameLength_pairAt octet 16) (splitPair_none (by simp [splitLength, long])) (.nameLengthB1 b3 octet long)
  | nameLengthB1 b3 b2 long =>
    exact more (paramNameLength_pairAt octet 8) (splitPair_none (by simp [splitLength, long])) (.nameLengthB0 b3 b2 octet long)
  | nameLengthB0 b3 b2 b1 long =>
    refine more (paramNameLength_pairAt octet 0) (splitPair_none (by simp [splitLength, long])) ?_
    rw [Nat.shiftLeft_zero, be32]
    exact .valueLengthB3 (.long b3 b2 b1 octet long)
  | valueLengthB3 name =>
    refine more (paramValueLengthB3_pairAt octet) ?_ ?_
    · have := splitPair_none_of_name name (show splitLength [] = none from rfl)
      rwa [List.append_nil] at this
    · split
      · rename_i long
        exact .valueLengthB2 name octet long
      · rename_i short
        exact .lengths name (.short octet (by omega))
  | valueLengthB2 name b3 long =>
    refine more (paramValueLength_pairAt octet 16) (splitPair_none_of_name name (by simp [splitLength, long])) ?_
    rw [List.append_assoc]
    exact .valueLengthB1 name b3 octet long
  | valueLengthB1 name b3 b2 long =>
    refine more (paramValueLength_pairAt octet 8) (splitPair_none_of_name name (by simp [splitLength, long])) ?_
    rw [List.append_assoc]
    exact .valueLengthB0 name b3 b2 octet long
  | valueLengthB0 name b3 b2 b1 long =>
    refine more (paramValueLength_pairAt octet 0) (splitPair_none_of_name name (by simp [splitLength, long])) ?_
    rw [Nat.shiftLeft_zero, be32, List.append_assoc]
    exact .lengths name (.long b3 b2 b1 octet long)
  | @lengths _ _ n m name value =>
    exact ensures_namePass read name value opensName_fresh rfl (Nat.zero_le n) (by simp) inside octet 1
  | name name value some fits => exact ensures_namePass read name value opensName_opened rfl fits rfl inside octet 1
  | value name value some fits => exact ensures_valuePass read name value opensValue_opened rfl fits rfl inside octet 2

theorem InPair.parseOctet {done : List Pair} {size : Nat} {x : List UInt8} {p : Parser} (h : InPair H done size x p)
    (octet : UInt8) :
    (p.parseOctet octet : Prog P _) = p.parseParams octet >>= fun p => pure p.lookahead := by
  cases h <;> rfl

/-- **One octet of a params record.** -/
theorem params_step {x : List UInt8} {p : Parser} (content : H.contentLength ≠ 0) (h : Params P H x p) (octet : UInt8) :
    Ensures (p.parseOctet octet : Prog P _) (Verdict.Keeps (Params P H) x octet) := by
  cases h with
  | start => exact ensures_lookahead (ensures_newPair .nil (.nil _) content.symm octet 3)
  | pair read here inside =>
    rw [here.parseOctet]
    exact ensures_lookahead (ensures_inPair read here inside octet)
  | padding read full some fits =>
    refine ensures_lookahead (ensures_pass (.pure ?_))
    exact keeps_padding read full fits octet
  | finished read full all => exact .pure (.finished read full all)
  | refused memory stuck =>
    rw [Parser.settling.absorbs p (Or.inr stuck)]
    exact .pure (.refused memory stuck)

end Cpptrw.Fcgi
