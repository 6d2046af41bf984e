import Cpptrw.Fcgi.RequestRun

/-!
# Records on the wire

A begin record, a params record and an empty record as their octets, each with
what the parser makes of it when something follows. The octets of a request
without a body are a `BodylessRequest`; the ids of the records behind the first
are free, as are all versions and reserved octets.
-/

namespace Cpptrw.Fcgi

open Lib Lib.Prog Text

variable {P : Platform}

/-- A begin record with eight octets of content and no padding. -/
structure BeginRecord where
  header : RecordHeader
  role1 : UInt8
  role0 : UInt8
  flags : UInt8
  reserved : List UInt8
  type : header.type = typeBeginRequest
  contentLength : header.contentLength = 8
  paddingLength : header.paddingLength = 0
  five : reserved.length = 5

def BeginRecord.octets (b : BeginRecord) : List UInt8 := b.header.octets ++ ([b.role1, b.role0, b.flags] ++ b.reserved)

/-- A params record with its pairs. -/
structure ParamsRecord where
  header : RecordHeader
  content : List UInt8
  padding : List UInt8
  pairs : List Pair
  type : header.type = typeParams
  read : PairsOctets content pairs
  some : pairs ≠ []
  contentLength : content.length = header.contentLength
  paddingLength : padding.length = header.paddingLength.toNat

def ParamsRecord.octets (r : ParamsRecord) : List UInt8 := r.header.octets ++ (r.content ++ r.padding)

/-- The header of a record of this type without content and padding. -/
structure EmptyRecord (type : UInt8) where
  header : RecordHeader
  same : header.type = type
  contentLength : header.contentLength = 0
  paddingLength : header.paddingLength = 0

def EmptyRecord.octets {type : UInt8} (e : EmptyRecord type) : List UInt8 := e.header.octets

/-- A request without a body. -/
structure BodylessRequest where
  start : BeginRecord
  records : List ParamsRecord
  lastParams : EmptyRecord typeParams
  lastStdin : EmptyRecord typeStdin

namespace BodylessRequest

def octets (b : BodylessRequest) : List UInt8 :=
  b.start.octets ++ (b.records.flatMap ParamsRecord.octets ++ (b.lastParams.octets ++ b.lastStdin.octets))

/-- The names and values sent, in order. -/
def assignments (b : BodylessRequest) : List (List UInt8 × List UInt8) :=
  (b.records.flatMap ParamsRecord.pairs).map fun q => (q.name, q.value)

end BodylessRequest

/-! ## What the parser makes of them -/

/-- The parser consumes `octets` and leaves the rest, and is a finished record then. -/
def ReadsRecord (P : Platform) (octets more : List UInt8) (header : RecordHeader) (Q : Parser → Prop) : Prop :=
  Ensures (Parser.init.parse (octets ++ more) : Prog P _) fun r =>
    r.2 = octets.length ∧ Decoded r.1 ∧ r.1.messageHeader = header.message ∧ Q r.1

theorem readsRecord_of_consumed {H : RecordHeader} {x more : List UInt8} {Q : Parser → Prop}
    (consumed : ∀ r, Consumed P H (x ++ more) r → r.2 = 8 + x.length ∧ r.1.state = .finished ∧ Q r.1) :
    ReadsRecord P (H.octets ++ x) more H Q := by
  rw [ReadsRecord, List.append_assoc]
  refine (ensures_record H (x ++ more)).mono fun r here => ?_
  obtain ⟨size, finished, read⟩ := consumed r here
  obtain ⟨k, bound, count, body, -⟩ := here
  refine ⟨?_, (At.body body).decoded finished, body.header_of_finished finished, read⟩
  rw [List.length_append, RecordHeader.length_octets, size]

theorem EmptyRecord.reads {type : UInt8} (e : EmptyRecord type) (more : List UInt8) :
    ReadsRecord P e.octets more e.header fun _ => True := by
  have reads : ReadsRecord P (e.header.octets ++ []) more e.header fun _ => True := by
    refine readsRecord_of_consumed fun r ⟨k, bound, count, body, _⟩ => ?_
    obtain ⟨nothing, finished⟩ := body.of_empty e.contentLength
    have := congrArg List.length nothing
    rw [List.length_take, Nat.min_eq_left bound, List.length_nil] at this
    exact ⟨by simp [count, this], finished, trivial⟩
  rwa [List.append_nil] at reads

theorem BeginRecord.reads (b : BeginRecord) (more : List UInt8) :
    ReadsRecord P b.octets more b.header fun p => p.beginMessage.flags = b.flags := by
  refine readsRecord_of_consumed fun r ⟨k, bound, count, body, settled⟩ => ?_
  have length : ([b.role1, b.role0, b.flags] ++ b.reserved).length = 8 := by simp [b.five]
  obtain ⟨fits, same⟩ := body.of_begin (by rw [b.contentLength]; decide) b.type
  rw [List.length_take, Nat.min_eq_left bound] at fits
  have eight : k = 8 := by
    by_contra short
    have stuck := settled (by rw [List.length_append, length]; omega)
    rw [same] at stuck
    rcases stuck with finished | error
    · have := (beginState_finished _ (by simp; omega)).mp finished
      rw [List.length_take] at this
      omega
    · exact beginState_ne_error _ (by simp; omega) error
  subst eight
  rw [List.take_append_of_le_length (by omega), List.take_of_length_le (by omega)] at same
  refine ⟨by omega, ?_, ?_⟩
  · rw [same]
    exact (beginState_finished _ (by omega)).mpr length
  · rw [same]
    rfl

/-- Pairs take room. -/
theorem ParamsRecord.content_ne_zero (r : ParamsRecord) : r.header.contentLength ≠ 0 := by
  rw [← r.contentLength]
  intro none
  have read := r.read
  rw [List.eq_nil_of_length_eq_zero none] at read
  exact r.some (PairsOctets.nil.unique read).symm

theorem ParamsRecord.reads (all : P.Succeeds) (r : ParamsRecord) {more : List UInt8} (some : more ≠ []) :
    ReadsRecord P r.octets more r.header fun p => p.params = r.pairs.map Pair.stored := by
  have content := r.content_ne_zero
  refine readsRecord_of_consumed fun p consumed => ?_
  rw [List.append_assoc] at consumed
  have finished := consumed.accepts all r.type content r.contentLength r.paddingLength some ⟨r.pairs, r.read⟩
  obtain ⟨done, read, stored⟩ := consumed.pairs r.type content r.contentLength finished
  refine ⟨?_, finished, ?_⟩
  · rw [consumed.size r.type content finished, List.length_append, r.contentLength, r.paddingLength]
    omega
  · rw [stored, read.unique r.read]

end Cpptrw.Fcgi
