import Cpptrw.Fcgi.Grammar
import Cpptrw.Lib.Recording
import Cpptrw.Main.Connection

/-!
# The response on the wire

What `sl_main_request_send_response` hands to `writev`, read as records. The
length of the response goes through a `uint16_t` on the way, so the records
carry the response exactly when it is shorter than 65536 octets.
-/

namespace Cpptrw.Main

open Lib Lib.Prog Text Fcgi Hashtable

variable {P : Platform}

/-! ## Records -/

/-- Octets that are a sequence of records, given by their headers and contents. -/
inductive RecordsOctets : List UInt8 → List (RecordHeader × List UInt8) → Prop
  | nil : RecordsOctets [] []
  | cons {H : RecordHeader} {content padding rest : List UInt8} {records : List (RecordHeader × List UInt8)}
      (full : content.length = H.contentLength) (padded : padding.length = H.paddingLength.toNat)
      (more : RecordsOctets rest records) :
      RecordsOctets (H.octets ++ (content ++ (padding ++ rest))) ((H, content) :: records)

theorem RecordsOctets.unpadded {H : RecordHeader} {content rest : List UInt8} {records : List (RecordHeader × List UInt8)}
    (full : content.length = H.contentLength) (none : H.paddingLength = 0) (more : RecordsOctets rest records) :
    RecordsOctets (H.octets ++ (content ++ rest)) ((H, content) :: records) := by
  have padded : ([] : List UInt8).length = H.paddingLength.toNat := by rw [none]; rfl
  exact .cons full padded more

/-- A sequence of records that carries a response: output, an empty record, and the end. -/
structure CarriesResponse (requestId : Nat) (raw : List UInt8) (records : List (RecordHeader × List UInt8)) : Prop where
  split : ∃ (outputs : List (RecordHeader × List UInt8)) (last ending : RecordHeader) (status : List UInt8),
    records = outputs ++ [(last, []), (ending, status)] ∧ (∀ r ∈ outputs, r.1.type = typeStdout ∧ r.2 ≠ []) ∧
    outputs.flatMap Prod.snd = raw ∧ last.type = typeStdout ∧ ending.type = typeEndRequest ∧ status.length = 8
  headers : ∀ r ∈ records, r.1.version = version1 ∧ r.1.requestId = requestId

/-- The octets carry a response. -/
def Carries (requestId : Nat) (raw octets : List UInt8) : Prop :=
  ∃ records, RecordsOctets octets records ∧ CarriesResponse requestId raw records

/-! ## Sending -/

/-- The buffers that `sl_main_request_send_response` hands to `writev`. -/
def responseBuffers (requestId : Nat) (buffer : List UInt8) (length : UInt16) : List (List UInt8) :=
  [headerOctets { version := version1, type := typeStdout, requestId, contentLength := length.toNat },
    buffer.take length.toNat, headerOctets { version := version1, type := typeStdout, requestId },
    headerOctets { version := version1, type := typeEndRequest, requestId, contentLength := sizeofMsgEnd },
    List.replicate sizeofMsgEnd 0]

theorem sendResponse_eq (request : Request) (buffer : List UInt8) (length : UInt16) :
    (sendResponse request buffer length : Prog P _) = writev (responseBuffers request.requestId buffer length) >>= fun
      | none => pure false
      | some bytesSent => logWriteFormat sentFormat [.number (UInt64.ofNat bytesSent)] >>= fun _ => pure true := rfl

/-- The end of `sl_main_request_execute`. -/
def respond (request : Request) (response : Response) : Prog P Bool :=
  response.process >>= fun
  | none => pure false
  | some rawResponse => sendResponse request rawResponse.octets rawResponse.length.toUInt16

theorem requestExecute_eq (request : Request) :
    (requestExecute request : Prog P _) =
      (Response.init headersPreallocate).appendHeader (.initWithCstring "Content-Type") (.initWithCstring "text/plain") >>=
        fun r => if r.1 then
          r.2.appendOutput (.initWithCstring "OK\n") >>= fun
          | none => pure false
          | some response => respond request response
        else pure false := rfl

/-! ## Short and long responses -/

/-- A header of the response. -/
def responseHeader (type : UInt8) (requestId contentLength : Nat) : RecordHeader :=
  ⟨version1, type, (requestId / 256).toUInt8, requestId.toUInt8, (contentLength / 256).toUInt8, contentLength.toUInt8, 0, 0⟩

/-- Two octets hold a 16-bit number. -/
theorem be16_htons {n : Nat} (small : n < 2 ^ 16) : (n / 256).toUInt8.toNat * 256 + n.toUInt8.toNat = n := by
  simp only [Nat.toUInt8_eq, UInt8.toNat_ofNat']
  omega

theorem responseBuffers_eq (requestId : Nat) (buffer : List UInt8) (length : UInt16) :
    (responseBuffers requestId buffer length).flatten =
      (responseHeader typeStdout requestId length.toNat).octets ++ (buffer.take length.toNat ++
        ((responseHeader typeStdout requestId 0).octets ++
          ((responseHeader typeEndRequest requestId sizeofMsgEnd).octets ++ List.replicate sizeofMsgEnd 0))) := by
  simp only [responseBuffers, List.flatten_cons, List.flatten_nil, List.append_nil]
  rfl

/-- **A short response is carried.** -/
theorem carries_short {requestId : Nat} (id : requestId < 2 ^ 16) {raw : List UInt8} (some : raw ≠ [])
    (short : raw.length < 65536) : Carries requestId raw (responseBuffers requestId raw raw.length.toUInt16).flatten := by
  have length : raw.length.toUInt16.toNat = raw.length := by
    rw [Nat.toUInt16_eq, UInt16.toNat_ofNat']
    omega
  rw [responseBuffers_eq, length, List.take_length]
  have ending : RecordsOctets _ [(responseHeader typeEndRequest requestId sizeofMsgEnd, List.replicate sizeofMsgEnd 0)] :=
    .unpadded (be16_htons (show sizeofMsgEnd < 2 ^ 16 by decide)).symm rfl .nil
  have last : RecordsOctets _ ((responseHeader typeStdout requestId 0, []) :: _) :=
    .unpadded (be16_htons (show 0 < 2 ^ 16 by decide)).symm rfl ending
  have all : RecordsOctets _ ((responseHeader typeStdout requestId raw.length, raw) :: _) :=
    .unpadded (be16_htons short).symm rfl last
  rw [List.nil_append, List.append_nil] at all
  refine ⟨_, all, ⟨[(responseHeader typeStdout requestId raw.length, raw)], _, _, _, rfl, ?_, ?_, rfl, rfl, rfl⟩, ?_⟩
  · intro r mem
    rw [List.mem_singleton.mp mem]
    exact ⟨rfl, some⟩
  · simp
  · intro r mem
    simp only [List.mem_cons, List.not_mem_nil, or_false] at mem
    rcases mem with rfl | rfl | rfl <;> exact ⟨rfl, be16_htons id⟩

/-- Records take eight octets each, and their contents. -/
theorem RecordsOctets.length_ge {octets : List UInt8} {records : List (RecordHeader × List UInt8)}
    (h : RecordsOctets octets records) : 8 * records.length + (records.flatMap Prod.snd).length ≤ octets.length := by
  induction h with
  | nil => exact Nat.le_refl 0
  | cons full padded more ih =>
    simp only [List.length_cons, List.flatMap_cons, List.length_append, RecordHeader.length_octets]
    omega

/-- **A long response is not carried**: there are too few octets. -/
theorem not_carries_long {requestId : Nat} {raw : List UInt8} (long : 65536 ≤ raw.length) :
    ¬Carries requestId raw (responseBuffers requestId raw raw.length.toUInt16).flatten := by
  intro ⟨records, octets, ⟨outputs, last, ending, status, split, _, whole, _, _, eight⟩, _⟩
  have least := octets.length_ge
  have written : raw.length.toUInt16.toNat = raw.length % 65536 := by
    rw [Nat.toUInt16_eq, UInt16.toNat_ofNat']
  have some : 1 ≤ outputs.length := by
    by_contra none
    rw [List.eq_nil_of_length_eq_zero (by omega : outputs.length = 0)] at whole
    rw [← whole] at long
    exact absurd long (by decide)
  rw [responseBuffers_eq, written, split] at least
  simp only [List.length_append, List.flatMap_append, whole, RecordHeader.length_octets, List.length_take,
    List.length_replicate, List.length_cons, List.length_nil, List.flatMap_cons, List.flatMap_nil, eight, sizeofMsgEnd] at least
  omega

/-- The end of `sl_main_request_execute` writes once. -/
theorem writes_respond (request : Request) {response : Response} {s : P.State}
    (serialised : Yields (response.process : Prog P.recording _) (Platform.unwritten s) fun raw => raw.isSome = true) :
    Writes (respond request response : Prog P.recording _) s
      (· = [(responseBuffers request.requestId response.raw response.raw.length.toUInt16).flatten]) := by
  have spec := serialised.and_ensures (Response.ensures_process response)
  refine Writes.bind spec (Response.compositional_process compositional_quiet response) fun raw s' ⟨there, made⟩ => ?_
  cases raw with
  | none => cases there
  | some raw =>
    dsimp only at made ⊢
    rw [sendResponse_eq, SlString.length, made]
    refine writes_writev _ s' (fun sent => ?_) fun sent => ?_
    · cases sent with
      | none => exact compositional_quiet.pure _
      | some bytesSent => exact compositional_quiet.bind (compositional_log compositional_quiet _ _) fun _ => compositional_quiet.pure _
    · cases sent with
      | none => exact .pure trivial
      | some bytesSent => exact (ensures_log (sent_matching _)).bind fun _ _ => .pure trivial

/-- There is always the empty line. -/
theorem raw_ne_nil (response : Response) : response.raw ≠ [] := by
  simp [Response.raw, octetsOf]

/-- **The response is carried exactly when it is shorter than 65536 octets.** -/
theorem response_carried_iff {request : Request} (id : request.requestId < 2 ^ 16) (response : Response) {s : P.State}
    (serialised : Yields (response.process : Prog P.recording _) (Platform.unwritten s) fun raw => raw.isSome = true) :
    Writes (respond request response : Prog P.recording _) s (fun written =>
        ∃ octets, written = [octets] ∧ Carries request.requestId response.raw octets) ↔
      response.raw.length < 65536 := by
  have once := writes_respond request serialised
  constructor
  · intro carried
    obtain ⟨sent, s', -, same, octets, same', carries⟩ := once.and carried
    rw [same, List.singleton_inj] at same'
    rw [← same'] at carries
    by_contra long
    exact not_carries_long (Nat.not_lt.mp long) carries
  · intro short
    obtain ⟨sent, s', run, same⟩ := once
    exact ⟨sent, s', run, _, same, carries_short id (raw_ne_nil response) short⟩

theorem serialised_ample (response : Response) (s : Unit) :
    Yields (response.process : Prog (Platform.recording .ample) _) (@Platform.unwritten .ample s) fun raw => raw.isSome = true := by
  refine ((Response.ensures_process response).mono fun raw made => ?_).yields _
  cases raw with
  | none => exact absurd (fun _ _ => rfl) made
  | some raw => rfl

/-- A response without headers. -/
def plainResponse (output : List UInt8) : Response := { Response.init headersPreallocate with stdout := .initWithBuffer output }

def requestOne : Request := { Request.init paramsPreallocate with requestId := 1 }

theorem length_raw_plain (output : List UInt8) : (plainResponse output).raw.length = 2 + output.length := by
  rw [Response.raw, List.length_append, List.length_append]
  simp [plainResponse, Response.init, Hashtable.init, Response.headerLines, octetsOf, SlString.initWithBuffer]

/-- A response with the header `Age: 7` and output. -/
def headedResponse : Prog P (Option Response) :=
  (Response.init headersPreallocate).appendHeader (.initWithCstring "Age") (.initWithCstring "7") >>= fun r =>
    r.2.appendOutput (.initWithCstring "OK\n")

/-- It is carried. -/
theorem response_carried_iff_headed :
    Ensures (headedResponse : Prog .ample _) fun
      | some response => response.raw = octetsOf "Age: 7\r\n\r\nOK\n" ∧
          Writes (respond requestOne response : Prog (Platform.recording .ample) _) () fun written =>
            ∃ octets, written = [octets] ∧ Carries 1 response.raw octets
      | none => False := by
  have built : ((headedResponse : Prog .ample _).value ()).map (Option.map Response.raw) =
      .ok (some (octetsOf "Age: 7\r\n\r\nOK\n")) := by decide +kernel
  refine (ensures_of_value built).mono fun made raw => ?_
  cases made with
  | none => cases raw
  | some response =>
    have here : response.raw = octetsOf "Age: 7\r\n\r\nOK\n" := Option.some.inj raw
    refine ⟨here, (@response_carried_iff .ample requestOne (by decide) response () (serialised_ample _ ())).mpr ?_⟩
    rw [here]
    decide

/-- Of a response of 65536 octets nothing is sent. -/
theorem not_carried_long :
    (plainResponse (List.replicate 65534 65)).raw.length = 65536 ∧
      Yields ((plainResponse (List.replicate 65534 65)).process : Prog (Platform.recording .ample) _)
        (@Platform.unwritten .ample ()) (fun raw => raw.isSome = true) ∧
      ¬Writes (respond requestOne (plainResponse (List.replicate 65534 65)) :
        Prog (Platform.recording .ample) _) () fun written =>
        ∃ octets, written = [octets] ∧ Carries 1 (plainResponse (List.replicate 65534 65)).raw octets := by
  have length : (plainResponse (List.replicate 65534 65)).raw.length = 65536 := by
    rw [length_raw_plain, List.length_replicate]
  refine ⟨length, serialised_ample _ (), fun carried => ?_⟩
  have once := writes_respond (P := .ample) requestOne (serialised_ample (plainResponse (List.replicate 65534 65)) ())
  obtain ⟨sent, s', -, same, octets, same', carries⟩ := once.and carried
  rw [same, List.singleton_inj] at same'
  rw [← same'] at carries
  exact not_carries_long (Nat.le_of_eq length.symm) carries

end Cpptrw.Main
