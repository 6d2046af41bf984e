import Cpptrw.Fcgi.WireRecord

/-!
# Requests with a body on the wire

Behind the begin record come the records of two streams, in any interleaving;
each stream is closed by an empty record. A stdin record is read back as it was
sent if it is padded. A request without a body is one of them.
-/

namespace Cpptrw.Fcgi

open Lib Lib.Prog Text

variable {P : Platform}

/-- A stdin record with content. -/
structure StdinRecord where
  header : RecordHeader
  content : List UInt8
  padding : List UInt8
  type : header.type = typeStdin
  some : content ≠ []
  contentLength : content.length = header.contentLength
  paddingLength : padding.length = header.paddingLength.toNat

namespace StdinRecord

def octets (r : StdinRecord) : List UInt8 := r.header.octets ++ (r.content ++ r.padding)

def Padded (r : StdinRecord) : Prop := r.header.paddingLength ≠ 0

theorem content_ne_zero (r : StdinRecord) : r.header.contentLength ≠ 0 := by
  rw [← r.contentLength]
  exact fun none => r.some (List.eq_nil_of_length_eq_zero none)

/-- **A padded record is read.** -/
theorem reads (all : P.Succeeds) (r : StdinRecord) (padded : r.Padded) {more : List UInt8} (some : more ≠ []) :
    ReadsRecord P r.octets more r.header fun p => p.stdinStream = ⟨r.content.length, .some (terminated r.content)⟩ := by
  have least := List.length_pos_iff.mpr some
  refine readsRecord_of_consumed fun p ⟨k, bound, count, body, settled⟩ => ?_
  rw [List.append_assoc] at bound body settled
  have stdin := body.toStdin r.type r.content_ne_zero
  have length := stdin.length_le all padded
  rw [List.length_take, Nat.min_eq_left bound, ← r.contentLength, ← r.paddingLength] at length
  have finished := stdin.finished_of_settled all padded (settled (by simp; omega))
  obtain ⟨xc, pad, split, full, padding, -, data⟩ := stdin.of_finished finished
  have total := congrArg List.length split
  rw [List.length_take, Nat.min_eq_left bound, List.length_append] at total
  rw [List.take_append, List.take_of_length_le (by rw [r.contentLength]; omega)] at split
  obtain ⟨rfl, -⟩ := List.append_inj split (r.contentLength.trans full.symm)
  refine ⟨?_, finished, ?_⟩
  · rw [count, total, List.length_append, full, padding, r.paddingLength]
  · rw [data, full]

/-- A record without padding is an error as soon as something follows. -/
theorem fails (r : StdinRecord) (unpadded : ¬r.Padded) {more : List UInt8} (some : more ≠ []) :
    Ensures (Parser.init.parse (r.octets ++ more) : Prog P _) fun q => q.1.state = .error := by
  have least := List.length_pos_iff.mpr some
  have none : r.header.paddingLength = 0 := not_not.mp unpadded
  rw [octets, List.append_assoc]
  refine (ensures_record r.header ((r.content ++ r.padding) ++ more)).mono fun (p, n) ⟨k, bound, count, body, settled⟩ => ?_
  have stdin := body.toStdin r.type r.content_ne_zero
  have ended : p.Settled ∨ r.header.contentLength < (((r.content ++ r.padding) ++ more).take k).length := by
    by_cases short : k < ((r.content ++ r.padding) ++ more).length
    · exact Or.inl (settled short)
    · refine Or.inr ?_
      rw [List.take_of_length_le (by omega), List.length_append, List.length_append, r.contentLength]
      omega
  generalize (((r.content ++ r.padding) ++ more).take k) = taken at stdin ended
  cases stdin with
  | start => rcases ended with (h | h) | h <;> cases h
  | data _ fits =>
    rcases ended with (h | h) | h
    · cases h
    · cases h
    · omega
  | padding full some fits =>
    rw [none] at fits
    exact absurd (List.eq_nil_of_length_eq_zero (Nat.le_zero.mp fits)) some
  | finished full pad padded => exact absurd none padded
  | unpadded full none stuck => exact stuck
  | refused memory stuck => exact stuck

end StdinRecord

/-! ## Records of either stream -/

/-- A record behind the begin record. -/
inductive WireRecord where
  | params (r : ParamsRecord)
  | stdin (r : StdinRecord)
  | lastParams (e : EmptyRecord typeParams)
  | lastStdin (e : EmptyRecord typeStdin)

namespace WireRecord

def header : WireRecord → RecordHeader
  | params r => r.header
  | stdin r => r.header
  | lastParams e => e.header
  | lastStdin e => e.header

def octets : WireRecord → List UInt8
  | params r => r.octets
  | stdin r => r.octets
  | lastParams e => e.octets
  | lastStdin e => e.octets

/-- The pairs in a record. -/
def pairs : WireRecord → List Pair
  | params r => r.pairs
  | _ => []

/-- The input in a record. -/
def body : WireRecord → List UInt8
  | stdin r => r.content
  | _ => []

/-- The parser can tell where the record ends. -/
def Legible : WireRecord → Prop
  | stdin r => r.Padded
  | _ => True

/-- A finished record with this header. -/
def summary (w : WireRecord) : Parser := { state := .finished, messageHeader := w.header.message }

theorem octets_ne_nil (w : WireRecord) : w.octets ≠ [] := by
  cases w <;> simp [octets, ParamsRecord.octets, StdinRecord.octets, EmptyRecord.octets, RecordHeader.octets]

/-- What is in a record that was read. -/
structure Read (w : WireRecord) (p : Parser) : Prop where
  params : paramsContents [p] = w.pairs.map fun q => (q.name, q.value)
  stdin : stdinContents [p] = w.body

/-- **A record is read** if it is legible, and if something follows or it is empty. -/
theorem reads (all : P.Succeeds) (w : WireRecord) (legible : w.Legible) {more : List UInt8}
    (some : w.header.contentLength = 0 ∨ more ≠ []) : ReadsRecord P w.octets more w.header w.Read := by
  cases w with
  | params r =>
    refine (r.reads all (some.resolve_left r.content_ne_zero)).mono fun q led => ?_
    obtain ⟨size, decoded, header, stored⟩ := led
    have type : q.1.messageHeader.type = typeParams := by
      rw [header]
      exact r.type
    refine ⟨size, decoded, header, ?_, decoded.stdinContents fun stdin => absurd (type.symm.trans stdin) (by decide)⟩
    simp [paramsContents, type, stored, pairs, Pair.stored, contents_terminated]
  | stdin r =>
    refine (r.reads all legible (some.resolve_left r.content_ne_zero)).mono fun q led => ?_
    obtain ⟨size, decoded, header, stored⟩ := led
    have type : q.1.messageHeader.type = typeStdin := by
      rw [header]
      exact r.type
    refine ⟨size, decoded, header, decoded.paramsContents fun params => absurd (type.symm.trans params) (by decide), ?_⟩
    simp [stdinContents, type, stored, body, contents_terminated]
  | lastParams e =>
    refine (e.reads more).mono fun q led => ?_
    obtain ⟨size, decoded, header, _⟩ := led
    have none : q.1.messageHeader.contentLength = 0 := by
      rw [header]
      exact e.contentLength
    exact ⟨size, decoded, header, decoded.paramsContents fun _ => none, decoded.stdinContents fun _ => none⟩
  | lastStdin e =>
    refine (e.reads more).mono fun q led => ?_
    obtain ⟨size, decoded, header, _⟩ := led
    have none : q.1.messageHeader.contentLength = 0 := by
      rw [header]
      exact e.contentLength
    exact ⟨size, decoded, header, decoded.paramsContents fun _ => none, decoded.stdinContents fun _ => none⟩

end WireRecord

/-- The state behind a record is decided by its header. -/
theorem RequestState.next_congr {r r' : Parser} (same : r.messageHeader = r'.messageHeader) (state : RequestState) :
    state.next r = state.next r' := by
  unfold next
  rw [same]

/-- Only an empty record ends a request. -/
theorem RequestState.contentLength_of_finished {state : RequestState} {r : Parser} (h : state.next r = .finished) :
    r.messageHeader.contentLength = 0 := by
  unfold next at h
  split at h <;> (try split_ifs at h) <;> first | assumption | cases h

/-! ## Requests -/

/-- A request, whose two streams are interleaved in any way. -/
structure WireRequest where
  start : BeginRecord
  params : List ParamsRecord
  lastParams : EmptyRecord typeParams
  inputs : List StdinRecord
  lastStdin : EmptyRecord typeStdin
  records : List WireRecord
  interleaved : Interleaving (params.map .params ++ [.lastParams lastParams]) (inputs.map .stdin ++ [.lastStdin lastStdin]) records

namespace WireRequest

def octets (r : WireRequest) : List UInt8 := r.start.octets ++ r.records.flatMap WireRecord.octets

theorem octets_ne_nil (r : WireRequest) : r.octets ≠ [] := by
  simp [octets, BeginRecord.octets, RecordHeader.octets]

/-- The names and values sent, in order. -/
def assignments (r : WireRequest) : List (List UInt8 × List UInt8) :=
  (r.params.flatMap ParamsRecord.pairs).map fun q => (q.name, q.value)

/-- The input sent. -/
def body (r : WireRequest) : List UInt8 := r.inputs.flatMap StdinRecord.content

theorem records_pairs (r : WireRequest) : r.records.flatMap WireRecord.pairs = r.params.flatMap ParamsRecord.pairs := by
  rw [r.interleaved.flatMap_left]
  · simp [List.flatMap_append, List.flatMap_map, WireRecord.pairs]
  · intro w there
    rcases List.mem_append.mp there with input | last
    · obtain ⟨_, -, rfl⟩ := List.mem_map.mp input
      rfl
    · rw [List.mem_singleton.mp last]
      rfl

theorem records_body (r : WireRequest) : r.records.flatMap WireRecord.body = r.body := by
  rw [r.interleaved.swap.flatMap_left]
  · simp [List.flatMap_append, List.flatMap_map, WireRecord.body, body]
  · intro w there
    rcases List.mem_append.mp there with params | last
    · obtain ⟨_, -, rfl⟩ := List.mem_map.mp params
      rfl
    · rw [List.mem_singleton.mp last]
      rfl

theorem legible_iff (r : WireRequest) : (∀ w ∈ r.records, w.Legible) ↔ ∀ input ∈ r.inputs, input.Padded := by
  constructor
  · intro legible input there
    exact legible (.stdin input) (r.interleaved.mem_iff.mpr (Or.inr (by simp [there])))
  · intro padded w there
    rcases r.interleaved.mem_iff.mp there with first | second
    · rcases List.mem_append.mp first with params | last
      · obtain ⟨_, -, rfl⟩ := List.mem_map.mp params
        trivial
      · rw [List.mem_singleton.mp last]
        trivial
    · rcases List.mem_append.mp second with input | last
      · obtain ⟨record, listed, rfl⟩ := List.mem_map.mp input
        exact padded record listed
      · rw [List.mem_singleton.mp last]
        trivial

/-- **The records complete a request**, whatever the interleaving. -/
theorem accepts (r : WireRequest) : RequestState.paramOrStdin.Accepts (r.records.map WireRecord.summary) := by
  refine ⟨_, _, ?_, ?_, r.interleaved.map WireRecord.summary⟩
  · refine ⟨r.params.map fun record => (WireRecord.params record).summary, (WireRecord.lastParams r.lastParams).summary, by simp, ?_, ?_⟩
    · intro p there
      obtain ⟨record, -, rfl⟩ := List.mem_map.mp there
      exact ⟨record.type, record.content_ne_zero⟩
    · exact ⟨r.lastParams.same, r.lastParams.contentLength⟩
  · refine ⟨r.inputs.map fun record => (WireRecord.stdin record).summary, (WireRecord.lastStdin r.lastStdin).summary, by simp, ?_, ?_⟩
    · intro p there
      obtain ⟨record, -, rfl⟩ := List.mem_map.mp there
      exact ⟨record.type, record.content_ne_zero⟩
    · exact ⟨r.lastStdin.same, r.lastStdin.contentLength⟩

end WireRequest

/-! ## Requests without a body -/

namespace BodylessRequest

/-- A request whose input is closed behind the parameters. -/
def wire (b : BodylessRequest) : WireRequest where
  start := b.start
  params := b.records
  lastParams := b.lastParams
  inputs := []
  lastStdin := b.lastStdin
  records := (b.records.map .params ++ [.lastParams b.lastParams]) ++ [.lastStdin b.lastStdin]
  interleaved := .append _ _

theorem wire_octets (b : BodylessRequest) : b.wire.octets = b.octets := by
  simp [WireRequest.octets, wire, octets, WireRecord.octets, List.flatMap_map, List.append_assoc]

end BodylessRequest

end Cpptrw.Fcgi
