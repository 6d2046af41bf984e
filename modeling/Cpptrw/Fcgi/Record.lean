import Cpptrw.Fcgi.StdinRecord

/-!
# The state of the parser on any stream

`At P seen p`: the parser has consumed the octets `seen` since its
initialisation and is `p`. There is a parser for every stream, and it is
determined up to refused memory, so `At` is an invariant and a specification at
once: `ensures_parse` is what everything about records is read off from.
-/

namespace Cpptrw.Fcgi

open Lib Lib.Prog Text

variable {P : Platform} {H : RecordHeader}

/-- The parser in the middle of a header. -/
def headerParser : List UInt8 → Parser
  | [v] => { state := .type, messageHeader := { version := v } }
  | [v, t] => { state := .requestIdB1, messageHeader := { version := v, type := t } }
  | [v, t, i1] => { state := .requestIdB0, messageHeader := { version := v, type := t, requestId := i1.toNat <<< 8 } }
  | [v, t, i1, i0] =>
    { state := .contentLengthB1, messageHeader := { version := v, type := t, requestId := i1.toNat * 256 + i0.toNat } }
  | [v, t, i1, i0, c1] =>
    { state := .contentLengthB0
      messageHeader := { version := v, type := t, requestId := i1.toNat * 256 + i0.toNat, contentLength := c1.toNat <<< 8 } }
  | [v, t, i1, i0, c1, c0] =>
    { state := .paddingLength
      messageHeader :=
        { version := v, type := t, requestId := i1.toNat * 256 + i0.toNat, contentLength := c1.toNat * 256 + c0.toNat } }
  | [v, t, i1, i0, c1, c0, p] =>
    { state := .paddingReserved
      messageHeader :=
        { version := v, type := t, requestId := i1.toNat * 256 + i0.toNat, contentLength := c1.toNat * 256 + c0.toNat
          paddingLength := p } }
  | _ => {}

/-- The states of a begin record by the number of octets behind the header. -/
def beginState : Nat → ParserState
  | 0 => .beginRoleB1
  | 1 => .beginRoleB0
  | 2 => .beginFlags
  | 3 => .beginSkip5
  | 4 => .beginSkip4
  | 5 => .beginSkip3
  | 6 => .beginSkip2
  | 7 => .beginSkip1
  | _ => .finished

/-- The fields of a begin record that have been read. -/
def beginFields : List UInt8 → MsgBegin
  | [] => {}
  | [r1] => { role := r1.toNat <<< 8 }
  | [r1, r0] => { role := r1.toNat * 256 + r0.toNat }
  | r1 :: r0 :: flags :: _ => { role := r1.toNat * 256 + r0.toNat, flags }

/-- The parser in a begin record, which takes eight octets whatever its header says. -/
def beginParser (H : RecordHeader) (x : List UInt8) : Parser :=
  { state := beginState x.length, messageSize := if x.length = 8 then 16 else 0, messageHeader := H.message
    beginMessage := beginFields x }

/-- What the parser is when it has consumed `x` behind the header. -/
inductive Body (P : Platform) (H : RecordHeader) : List UInt8 → Parser → Prop
  | empty (none : H.contentLength = 0) : Body P H [] (H.parser .finished)
  | begin {x : List UInt8} (content : H.contentLength ≠ 0) (type : H.type = typeBeginRequest) (fits : x.length ≤ 8) :
      Body P H x (beginParser H x)
  | params {x : List UInt8} {p : Parser} (content : H.contentLength ≠ 0) (type : H.type = typeParams)
      (h : Params P H x p) : Body P H x p
  | stdin {x : List UInt8} {p : Parser} (content : H.contentLength ≠ 0) (type : H.type = typeStdin)
      (h : Stdin P H x p) : Body P H x p
  | unknown (content : H.contentLength ≠ 0) (type : dispatchType H.type = .error) : Body P H [] (H.parser .error)

/-- What the parser is when it has consumed a stream. -/
inductive At (P : Platform) : List UInt8 → Parser → Prop
  | header {x : List UInt8} (short : x.length < 8) : At P x (headerParser x)
  | body {H : RecordHeader} {x : List UInt8} {p : Parser} (h : Body P H x p) : At P (H.octets ++ x) p

/-- The content of a record, once there is a header with content. -/
theorem body_start (content : H.contentLength ≠ 0) : Body P H [] (H.parser (dispatchType H.type)) := by
  by_cases begin : H.type = typeBeginRequest
  · have start := Body.begin (P := P) content begin (show ([] : List UInt8).length ≤ 8 by decide)
    rw [begin]
    exact start
  · by_cases params : H.type = typeParams
    · rw [params]
      exact .params content params .start
    · by_cases stdin : H.type = typeStdin
      · rw [stdin]
        exact .stdin content stdin .start
      · have unknown : dispatchType H.type = .error := by
          rw [dispatchType, if_neg begin, if_neg params, if_neg stdin]
        rw [unknown]
        exact .unknown content unknown

/-- One octet of a begin record. -/
theorem begin_step {x : List UInt8} (content : H.contentLength ≠ 0) (type : H.type = typeBeginRequest)
    (fits : x.length ≤ 8) (octet : UInt8) :
    Ensures ((beginParser H x).parseOctet octet : Prog P _) (Verdict.Keeps (Body P H) x octet) := by
  have next : ∀ y : List UInt8, y = x ++ [octet] → y.length ≤ 8 → Body P H (x ++ [octet]) (beginParser H y) := by
    rintro y rfl fits
    exact .begin content type fits
  match x, fits with
  | [], _ => exact .pure (next [octet] rfl (show 1 ≤ 8 by decide))
  | [r1], _ =>
    have joined := next [r1, octet] rfl (show 2 ≤ 8 by decide)
    simp only [beginParser, beginFields, ← be16] at joined
    exact .pure joined
  | [r1, r0], _ => exact .pure (next [r1, r0, octet] rfl (show 3 ≤ 8 by decide))
  | [r1, r0, f], _ => exact .pure (next [r1, r0, f, octet] rfl (show 4 ≤ 8 by decide))
  | [r1, r0, f, a], _ => exact .pure (next [r1, r0, f, a, octet] rfl (show 5 ≤ 8 by decide))
  | [r1, r0, f, a, b], _ => exact .pure (next [r1, r0, f, a, b, octet] rfl (show 6 ≤ 8 by decide))
  | [r1, r0, f, a, b, c], _ => exact .pure (next [r1, r0, f, a, b, c, octet] rfl (show 7 ≤ 8 by decide))
  | [r1, r0, f, a, b, c, d], _ => exact .pure (next [r1, r0, f, a, b, c, d, octet] rfl (show 8 ≤ 8 by decide))
  | [r1, r0, f, a, b, c, d, e], _ => exact .pure (.begin content type (show 8 ≤ 8 by decide))

/-- One octet behind a header. -/
theorem body_step {x : List UInt8} {p : Parser} (h : Body P H x p) (octet : UInt8) :
    Ensures (p.parseOctet octet : Prog P _) (Verdict.Keeps (Body P H) x octet) := by
  have weaken : ∀ {Inv : List UInt8 → Parser → Prop}, (∀ y q, Inv y q → Body P H y q) →
      ∀ v : Verdict Parser, v.Keeps Inv x octet → v.Keeps (Body P H) x octet := by
    intro Inv le v kept
    cases v <;> exact le _ _ kept
  cases h with
  | empty none => exact .pure (.empty none)
  | begin content type fits => exact begin_step content type fits octet
  | params content type h => exact (params_step content h octet).mono (weaken fun _ _ => .params content type)
  | stdin content type h => exact (stdin_step h octet).mono (weaken fun _ _ => .stdin content type)
  | unknown content type => exact .pure (.unknown content type)

/-- One octet of a header. -/
theorem header_step {x : List UInt8} (short : x.length < 8) (octet : UInt8) :
    Ensures ((headerParser x).parseOctet octet : Prog P _) (Verdict.Keeps (At P) x octet) := by
  have next : ∀ y : List UInt8, y = x ++ [octet] → y.length < 8 → At P (x ++ [octet]) (headerParser y) := by
    rintro y rfl short
    exact .header short
  match x, short with
  | [], _ => exact .pure (next [octet] rfl (show 1 < 8 by decide))
  | [v], _ => exact .pure (next [v, octet] rfl (show 2 < 8 by decide))
  | [v, t], _ => exact .pure (next [v, t, octet] rfl (show 3 < 8 by decide))
  | [v, t, i1], _ =>
    have joined := next [v, t, i1, octet] rfl (show 4 < 8 by decide)
    simp only [headerParser, ← be16] at joined
    exact .pure joined
  | [v, t, i1, i0], _ => exact .pure (next [v, t, i1, i0, octet] rfl (show 5 < 8 by decide))
  | [v, t, i1, i0, c1], _ =>
    have joined := next [v, t, i1, i0, c1, octet] rfl (show 6 < 8 by decide)
    simp only [headerParser, ← be16 c1] at joined
    exact .pure joined
  | [v, t, i1, i0, c1, c0], _ => exact .pure (next [v, t, i1, i0, c1, c0, octet] rfl (show 7 < 8 by decide))
  | [v, t, i1, i0, c1, c0, p], _ =>
    -- the last octet of a header decides where the parser goes
    let H : RecordHeader := ⟨v, t, i1, i0, c1, c0, p, octet⟩
    have enter : ∀ q, Body P H [] q → At P H.octets q := fun q h => At.body (x := []) h
    by_cases none : H.contentLength = 0
    · have branch : (headerParser [v, t, i1, i0, c1, c0, p]).parseOctet octet =
          (pure (.finish (H.parser .finished)) : Prog P _) := if_pos none
      rw [branch]
      exact .pure (enter _ (.empty none))
    · have branch : (headerParser [v, t, i1, i0, c1, c0, p]).parseOctet octet =
          (pure (.advance (H.parser (dispatchType t))) : Prog P _) := if_neg none
      rw [branch]
      exact .pure (enter _ (body_start none))

/-- **One octet of any stream.** -/
theorem at_step (seen : List UInt8) (p : Parser) (octet : UInt8) (h : At P seen p) :
    Ensures (p.parseOctet octet : Prog P _) (Verdict.Keeps (At P) seen octet) := by
  cases h with
  | header short => exact header_step short octet
  | @body H x p h =>
    refine (body_step h octet).mono fun v kept => ?_
    cases v with
    | advance p' =>
      have next := At.body (P := P) kept
      rwa [← List.append_assoc] at next
    | finish p' =>
      have next := At.body (P := P) kept
      rwa [← List.append_assoc] at next
    | stop p' => exact .body kept

/-- **Any stream.** The parser does not fault, and it settles unless it has consumed everything. -/
theorem ensures_parse (stream : List UInt8) :
    Ensures (Parser.init.parse stream : Prog P _) fun r =>
      r.2 ≤ stream.length ∧ At P (stream.take r.2) r.1 ∧ (r.2 < stream.length → r.1.Settled) :=
  Parser.settling.ensures_consume at_step stream [] Parser.init (.header (show 0 < 8 by decide))

/-- Outcome of a parse behind the header of the first record: `k` octets of what follows it were consumed. -/
def Consumed (P : Platform) (H : RecordHeader) (z : List UInt8) (r : Parser × Nat) : Prop :=
  ∃ k ≤ z.length, r.2 = 8 + k ∧ Body P H (z.take k) r.1 ∧ (k < z.length → r.1.Settled)

theorem not_settled_header {x : List UInt8} (short : x.length < 8) : ¬(headerParser x).Settled := by
  match x, short with
  | [], _ | [_], _ | [_, _], _ | [_, _, _], _ | [_, _, _, _], _ | [_, _, _, _, _], _ | [_, _, _, _, _, _], _
  | [_, _, _, _, _, _, _], _ => rintro (h | h) <;> cases h

/-- **The first record of a stream.** -/
theorem ensures_record (H : RecordHeader) (z : List UInt8) :
    Ensures (Parser.init.parse (H.octets ++ z) : Prog P _) (Consumed P H z) := by
  refine (ensures_parse (H.octets ++ z)).mono ?_
  rintro ⟨p, n⟩ ⟨bound, reached, settled⟩
  simp only [List.length_append, RecordHeader.length_octets] at bound settled
  generalize split : (H.octets ++ z).take n = seen at reached
  have length : seen.length = n := by
    rw [← split, List.length_take, List.length_append, RecordHeader.length_octets]
    omega
  cases reached with
  | header short => exact absurd (settled (by omega)) (not_settled_header short)
  | @body H' x p h =>
    rw [List.length_append, RecordHeader.length_octets] at length
    rw [List.take_append, List.take_of_length_le (by simp; omega)] at split
    obtain ⟨same, rest⟩ := List.append_inj split rfl
    have header : H = H' := by
      simp only [RecordHeader.octets, List.cons.injEq, and_true] at same
      cases H
      cases H'
      simpa using same
    subst header
    refine ⟨x.length, by omega, length.symm, ?_, fun short => settled (by omega)⟩
    rw [RecordHeader.length_octets, show n - 8 = x.length by omega] at rest
    rwa [rest]

theorem ensures_record_chunks (H : RecordHeader) (z : List UInt8) {chunks : List (List UInt8)}
    (stream : chunks.flatten = H.octets ++ z) :
    Ensures (Parser.init.parseChunks chunks : Prog P _) (Consumed P H z) := by
  rw [Parser.parseChunks_eq, stream]
  exact ensures_record H z

end Cpptrw.Fcgi
