import Cpptrw.Fcgi.WireRequest
import Cpptrw.Main.Events

/-!
# Delivery of a request

From the octets of a request, with or without a body, to the call of
`sl_main_request_execute`. Each record is read, handed to the request and
followed by a new parser (`feeds_record`); `Underway` is what the connection
holds between two records. A stdin record without padding ends in an error on
the octet behind it; as long as there is none, every record leads on to the
next. The octets are consumed to the last one then, so no beginning of the
stream ends the session, and the cuts between the buffers do not matter. A
request without a body is one whose stdin records are padded, as it has none.
-/

namespace Cpptrw.Main

open Lib Lib.Prog Text Fcgi Hashtable

variable {P : Platform}

/-! ## Between two records -/

/-- What the records so far have brought. -/
structure Brought (start : BeginRecord) (pairs : List Pair) (body : List UInt8) (records : List Parser) : Prop where
  first : ∃ first rest, records = first :: rest ∧ first.beginMessage.flags = start.flags ∧
    first.messageHeader = start.header.message
  params : paramsContents records = pairs.map fun q => (q.name, q.value)
  stdin : stdinContents records = body

theorem Brought.snoc {start : BeginRecord} {pairs : List Pair} {body : List UInt8} {records : List Parser}
    (h : Brought start pairs body records) {w : WireRecord} {p : Parser} (read : w.Read p) :
    Brought start (pairs ++ w.pairs) (body ++ w.body) (records ++ [p]) := by
  obtain ⟨first, rest, split, flags, header⟩ := h.first
  refine ⟨⟨first, rest ++ [p], by rw [split]; rfl, flags, header⟩, ?_, ?_⟩
  · rw [paramsContents_append, h.params, read.params, List.map_append]
  · rw [stdinContents_append, h.stdin, read.stdin]

/-- A connection between two records of a request. -/
structure Underway (start : BeginRecord) (pairs : List Pair) (body : List UInt8) (state : RequestState)
    (connection : Connection) : Prop where
  parser : connection.parser = .init
  executed : connection.executed = []
  processed : Processed connection.records connection.request
  state : RequestState.begin.after connection.records = state
  brought : Brought start pairs body connection.records

/-- A request that was put together is the one that was sent. -/
structure Bears (start : BeginRecord) (assignments : List (List UInt8 × List UInt8)) (body : List UInt8) (request : Request) :
    Prop where
  requestId : request.requestId = start.header.requestId
  flags : request.flags = start.flags
  stdin : request.stdin.octets = body
  parameters : ∀ name, (get request.parameters name).map (Option.map SlString.octets) = (lastValue assignments name).map some

/-- The one request that was executed is the one that was sent, and it is the last there is. -/
structure Performed (start : BeginRecord) (assignments : List (List UInt8 × List UInt8)) (body : List UInt8)
    (connection : Connection) (request : Request) : Prop where
  called : connection.executed = [request]
  borne : Bears start assignments body request
  last : connection.request = request
  finished : request.state = .finished
  parser : connection.parser.state = .finished

/-- What becomes of a session, and whether it has consumed all of the octets. -/
def Feeds (P : Platform) (session : Session) (octets : List UInt8) (Q : Session → Prop → Prop) : Prop :=
  Ensures (consume feed session octets : Prog P _) fun r => Q r.1 (r.2 = octets.length)

/-- **One record.** The parser reads it, the request takes it, and a new parser goes on behind it. -/
theorem feeds_record (all : P.Succeeds) {connection : Connection} {octets more : List UInt8} {header : RecordHeader}
    {R : Parser → Prop} {Q : Session → Prop → Prop} (fresh : connection.parser = .init)
    (processed : Processed connection.records connection.request) (some : octets ≠ [])
    (reads : ReadsRecord P octets more header R)
    (next : ∀ (p : Parser) (request : Request), p.state = .finished → p.messageHeader = header.message → R p →
      Processed (connection.records ++ [p]) request → request.state ≠ .error ∧
      (Live request → Feeds P (.next { connection with parser := .init, request, records := connection.records ++ [p] }) more Q) ∧
      (request.state = .finished → Q (.done { parser := p, request, records := connection.records ++ [p], executed :=
        connection.executed ++ [request] }) (more = []))) :
    Feeds P (.next connection) (octets ++ more) Q := by
  rw [Feeds, consume_feed _ _ (Or.inl (by simp [some])), fresh]
  refine reads.bind fun (p, n) ⟨size, decoded, same, read⟩ => ?_
  dsimp only at size decoded same read ⊢
  subst size
  rw [settle, if_neg (by rw [decoded.finished]; decide), if_pos decoded.finished, bind_assoc]
  refine (ensures_process all processed decoded).bind fun request taken => ?_
  obtain ⟨fine, goesOn, ends⟩ := next p request decoded.finished same read taken
  dsimp only
  rw [if_neg fine]
  by_cases finished : request.state = .finished
  · have consumed : (octets.length = (octets ++ more).length) = (more = []) := by simp
    rw [if_pos finished, pure_bind]
    refine .pure ?_
    rw [consumed]
    exact ends finished
  · rw [if_neg finished, pure_bind]
    simp only [resume, List.drop_left]
    refine (goesOn ⟨finished, fine⟩).bind fun r led => .pure ?_
    have consumed : (octets.length + r.2 = (octets ++ more).length) = (r.2 = more.length) := by simp
    dsimp only
    rw [consumed]
    exact led

/-- How the octets of a request end: it is executed on the last of them, or the parser is in error. -/
def Ends (start : BeginRecord) (pairs : List Pair) (body : List UInt8) (legible : Prop) (session : Session) (consumed : Prop) : Prop :=
  ∃ connection, session = .done connection ∧
    (legible ∧ consumed ∧ (∃ request, Performed start (pairs.map fun q => (q.name, q.value)) body connection request) ∨
      ¬legible ∧ connection.parser.state = .error ∧ connection.executed = [])

/-- A record that is not legible. -/
theorem feeds_illegible {connection : Connection} (fresh : connection.parser = .init) (none : connection.executed = [])
    {w : WireRecord} (illegible : ¬w.Legible) {more : List UInt8} (some : more ≠ []) {start : BeginRecord} {pairs : List Pair}
    {body : List UInt8} {legible : Prop} (not : ¬legible) :
    Feeds P (.next connection) (w.octets ++ more) (Ends start pairs body legible) := by
  cases w with
  | stdin r =>
    rw [Feeds, consume_feed _ _ (Or.inl (by simp [some])), fresh]
    refine (r.fails illegible some).bind fun (p, n) error => ?_
    rw [settle, if_pos error, pure_bind]
    exact .pure ⟨_, rfl, Or.inr ⟨not, error, none⟩⟩
  | params r => exact absurd trivial illegible
  | lastParams e => exact absurd trivial illegible
  | lastStdin e => exact absurd trivial illegible

/-- **The rest of a request**, from between any two of its records. -/
theorem feeds_rest (all : P.Succeeds) {start : BeginRecord} (rest : List WireRecord) :
    ∀ {pairs : List Pair} {body : List UInt8} {state : RequestState} {connection : Connection},
      Underway start pairs body state connection → state ≠ .finished → state.Accepts (rest.map WireRecord.summary) →
      Feeds P (.next connection) (rest.flatMap WireRecord.octets)
        (Ends start (pairs ++ rest.flatMap WireRecord.pairs) (body ++ rest.flatMap WireRecord.body) (∀ w ∈ rest, w.Legible)) := by
  induction rest with
  | nil =>
    intro pairs body state connection _ unfinished accepts
    exact absurd ((RequestState.accepts_nil state).mp accepts) unfinished
  | cons w rest ih =>
    intro pairs body state connection underway unfinished accepts
    rw [List.map_cons, RequestState.accepts_cons] at accepts
    -- what has content does not end the request, so something follows it
    have follows : w.header.contentLength = 0 ∨ rest.flatMap WireRecord.octets ≠ [] := by
      cases rest with
      | nil => exact Or.inl (RequestState.contentLength_of_finished ((RequestState.accepts_nil _).mp accepts))
      | cons w' rest => exact Or.inr (by simp [w'.octets_ne_nil])
    rw [List.flatMap_cons]
    by_cases legible : w.Legible
    · refine feeds_record all underway.parser underway.processed w.octets_ne_nil (w.reads all legible follows)
        fun p request settled header read processed => ?_
      have led : RequestState.begin.after (connection.records ++ [p]) = state.next w.summary := by
        rw [RequestState.after_snoc, underway.state]
        exact RequestState.next_congr header state
      have here : request.state = state.next w.summary := processed.state.trans led
      have brought := underway.brought.snoc read
      refine ⟨?_, fun live => ?_, fun finished => ?_⟩
      · rw [here]
        intro error
        rw [error] at accepts
        exact accepts
      · have onward : Underway start (pairs ++ w.pairs) (body ++ w.body) (state.next w.summary)
            { connection with parser := .init, request, records := connection.records ++ [p] } :=
          ⟨rfl, underway.executed, processed, led, brought⟩
        have more := ih onward (here ▸ live.1) accepts
        simpa [legible, List.append_assoc] using more
      · have last : rest = [] := by
          rw [← here, finished] at accepts
          exact List.map_eq_nil_iff.mp accepts
        subst last
        have gathered := processed.gathered (by rw [finished]; decide)
        obtain ⟨first, others, split, flags, header⟩ := brought.first
        obtain ⟨flags', requestId⟩ := gathered.first first (by rw [split]; rfl)
        refine ⟨_, rfl, Or.inl ⟨by simpa using legible, rfl, request, ?_⟩⟩
        refine ⟨by rw [underway.executed]; rfl, ⟨?_, flags'.trans flags, ?_, fun name => ?_⟩, rfl, finished, settled⟩
        · rw [requestId, header]
          rfl
        · simpa [brought.stdin] using gathered.stdin
        · rw [gathered.get, brought.params]
          simp
    · have content : w.header.contentLength ≠ 0 := by
        cases w with
        | stdin r => exact r.content_ne_zero
        | params r => exact absurd trivial legible
        | lastParams e => exact absurd trivial legible
        | lastStdin e => exact absurd trivial legible
      have not : ¬∀ w' ∈ w :: rest, w'.Legible := fun every => legible (every w List.mem_cons_self)
      exact feeds_illegible underway.parser underway.executed legible (follows.resolve_left content) not

/-- **The octets of a request.** -/
theorem feeds_request (all : P.Succeeds) (r : WireRequest) :
    Feeds P (.next .fresh) r.octets
      (Ends r.start (r.params.flatMap ParamsRecord.pairs) r.body (∀ input ∈ r.inputs, input.Padded)) := by
  refine feeds_record all rfl (Connection.fresh_sound (P := P)).request (by simp [BeginRecord.octets, RecordHeader.octets])
    (r.start.reads _) fun p request _ header flags processed => ?_
  have type : p.messageHeader.type = typeBeginRequest := by
    rw [header]
    exact r.start.type
  have state : RequestState.begin.after [p] = .paramOrStdin := if_pos type
  have here : request.state = .paramOrStdin := processed.state.trans state
  have brought : Brought r.start [] [] [p] := by
    refine ⟨⟨p, [], rfl, flags, header⟩, ?_, ?_⟩
    · simp [paramsContents, type, typeBeginRequest, typeParams]
    · simp [stdinContents, type, typeBeginRequest, typeStdin]
  refine ⟨by rw [here]; decide, fun _ => ?_, fun finished => absurd (here.symm.trans finished) (by decide)⟩
  have underway : Underway r.start [] [] .paramOrStdin { Connection.fresh with request, records := [p] } :=
    ⟨rfl, rfl, processed, state, brought⟩
  have more := feeds_rest all r.records underway (by decide) r.accepts
  rw [List.nil_append, List.nil_append, r.records_pairs, r.records_body, propext r.legible_iff] at more
  exact more

/-! ## Cuts -/

/-- Behind a first part that is known, the rest. -/
theorem ensures_fed_rest (all : P.Succeeds) {session session' : Session} {front back : List UInt8} {n : Nat}
    {Q : Session × Nat → Prop} (whole : Ensures (consume feed session (front ++ back) : Prog P _) Q)
    (first : Ensures (consume feed session front : Prog P _) (· = (session', n))) :
    Ensures (consume feed session' back : Prog P _) fun r => Q (r.1, n + r.2) := by
  rw [feed_settling.consume_append] at whole
  refine (whole.of_bind first ?_).of_bind_pure
  exact (compositional_consume (compositional_steady all) (steady_feed all) back session').bind fun _ => .pure _

/-- A part of the octets leads somewhere. -/
theorem exists_fed (all : P.Succeeds) (s : P.State) {connection : Connection} (sound : Sound P connection)
    (octets : List UInt8) :
    ∃ session n, Ensures (consume feed (.next connection) octets : Prog P _) (· = (session, n)) ∧
      session.Good P connection.Open ∧ n ≤ octets.length ∧
      Ensures (parseBuffer connection octets : Prog P _) (· = Session.connection session) := by
  have good : Session.Good P connection.Open (.next connection) := ⟨sound, id⟩
  obtain ⟨⟨session, n⟩, fed, reached, bound⟩ := (compositional_consume (compositional_steady all) (steady_feed all) octets (.next connection)).exists_value
    ((ensures_consume_feed all good octets).and_returns (feed_settling.returns_consume octets _)) s
  refine ⟨session, n, fed, reached, bound.1, (ensures_parseBuffer_of_fed all fed).mono fun connection' ⟨r, same, here⟩ => ?_⟩
  rw [← here, same]

/-- Buffers that leave the session open. -/
theorem ensures_parseBuffers_fed (all : P.Succeeds) {middle : Connection} (buffers : List (List UInt8)) :
    ∀ {connection : Connection}, Sound P connection →
      Ensures (consume feed (.next connection) buffers.flatten : Prog P _) (fun r => r.1 = .next middle) →
      Ensures (parseBuffers connection buffers : Prog P _) (· = middle) := by
  induction buffers with
  | nil =>
    intro connection _ fed s
    obtain ⟨r, s', run, same⟩ := fed s
    cases run
    cases same
    exact ⟨_, s, rfl, rfl⟩
  | cons buffer buffers ih =>
    intro connection sound fed s
    obtain ⟨session, n, first, good, -, parsed⟩ := exists_fed all s sound buffer
    have rest := ensures_fed_rest all fed first
    cases session with
    | done connection' =>
      rw [feed_settling.consume_settled ⟨connection', rfl⟩] at rest
      obtain ⟨r, s', run, same⟩ := rest s
      cases run
      cases same
    | next connection' =>
      refine (parsed.bind fun connection'' same => ?_ : Ensures _ _) s
      rw [same]
      exact ih good.1 rest

theorem Connection.Open.not_closed {connection : Connection} (h : connection.Open) : ¬Closed connection := by
  intro closed
  rcases closed with error | ⟨-, finished | error⟩
  · exact h.parser error
  · exact h.request.1 finished
  · exact h.request.2 error

/-- The calls for the buffers of a stream: the connection before the last one, and behind it. -/
def deliver (connection : Connection) (front : List (List UInt8)) (buffer : List UInt8) :
    Prog P (Connection × Connection) := do
  let before ← parseBuffers connection front
  let after ← parseBuffer before buffer
  pure (before, after)

/-- The calls for the buffers of octets that are consumed to the last one. -/
theorem ensures_deliver (all : P.Succeeds) {octets : List UInt8} {Q : Session → Prop}
    (whole : Feeds P (.next .fresh) octets fun session consumed => consumed ∧ Q session) {front : List (List UInt8)}
    {buffer : List UInt8} (some : buffer ≠ []) (cut : front.flatten ++ buffer = octets) :
    Ensures (deliver .fresh front buffer : Prog P _) fun (before, after) =>
      before.executed = [] ∧ ∃ session, Q session ∧ Session.connection session = after := by
  intro s
  rw [Feeds, ← cut] at whole
  obtain ⟨session, n, first, good, bound, -⟩ := exists_fed all s Connection.fresh_sound front.flatten
  have rest := ensures_fed_rest all whole first
  cases session with
  | done connection =>
    -- the octets of the last buffer would not be consumed
    rw [feed_settling.consume_settled ⟨connection, rfl⟩] at rest
    obtain ⟨r, s', run, size, -⟩ := rest s
    cases run
    have := List.length_pos_iff.mpr some
    rw [List.length_append] at size
    omega
  | next middle =>
    have led := (ensures_parseBuffers_fed all front Connection.fresh_sound (first.mono fun r same => by rw [same])).and_returns
      (returns_betweenAll front (Or.inl ⟨Connection.fresh_waiting, rfl⟩))
    refine (led.bind fun before reached => ?_ : Ensures _ _) s
    obtain ⟨same, between⟩ := reached
    subst same
    have none : before.executed = [] := by
      rcases between with ⟨-, kept⟩ | ⟨closed, -⟩
      · exact kept
      · exact absurd closed (good.2 Connection.fresh_open).not_closed
    refine (ensures_parseBuffer_of_fed all rest).bind fun after led' => ?_
    obtain ⟨r, ⟨-, reached⟩, here⟩ := led'
    exact .pure ⟨none, r.1, reached, here⟩

/-- A request whose stdin records are padded is executed with its last octet. -/
theorem ensures_deliver_padded (all : P.Succeeds) (r : WireRequest) (padded : ∀ input ∈ r.inputs, input.Padded)
    {front : List (List UInt8)} {buffer : List UInt8} (some : buffer ≠ []) (cut : front.flatten ++ buffer = r.octets) :
    Ensures (deliver .fresh front buffer : Prog P _) fun (before, after) =>
      before.executed = [] ∧ ∃ request, Performed r.start r.assignments r.body after request := by
  have whole : Feeds P (.next .fresh) r.octets fun session consumed => consumed ∧ ∃ connection request,
      session = .done connection ∧ Performed r.start r.assignments r.body connection request := by
    refine (feeds_request all r).mono fun q ⟨connection, done, ended⟩ => ?_
    obtain ⟨-, consumed, request, performed⟩ := ended.resolve_right fun failed => failed.1 padded
    exact ⟨consumed, connection, request, done, performed⟩
  refine (ensures_deliver all whole some cut).mono fun (before, after) led => ?_
  obtain ⟨none, session, ⟨connection, request, rfl, performed⟩, rfl⟩ := led
  exact ⟨none, request, performed⟩

/-- A begin record with the flag to keep the connection. -/
def keepingBegin : BeginRecord :=
  { header := ⟨1, 1, 0, 7, 0, 8, 0, 0⟩, role1 := 0, role0 := 1, flags := 1, reserved := [0, 0, 0, 0, 0], type := rfl
    contentLength := rfl, paddingLength := rfl, five := rfl }

/-- A params record with the pair `A=B` and an octet of padding. -/
def oneParam : ParamsRecord :=
  { header := ⟨1, 4, 0, 7, 0, 4, 1, 0⟩, content := [1, 1, 65, 66], padding := [0], pairs := [⟨[65], [66]⟩], type := rfl
    read := .single (@PairOctets.intro [1] [1] ⟨[65], [66]⟩ (.short 1 (by decide)) (.short 1 (by decide)))
    some := by simp, contentLength := rfl, paddingLength := rfl }

/-- A request with one parameter. -/
def oneParamRequest : BodylessRequest :=
  { start := keepingBegin, records := [oneParam], lastParams := ⟨⟨1, 4, 0, 7, 0, 0, 0, 0⟩, rfl, rfl, rfl⟩
    lastStdin := ⟨⟨1, 5, 0, 7, 0, 0, 0, 0⟩, rfl, rfl, rfl⟩ }

/-- A stdin record with two octets of content and two of padding. -/
def twoOctets : StdinRecord :=
  { header := ⟨1, 5, 0, 7, 0, 2, 2, 0⟩, content := [72, 105], padding := [0, 0], type := rfl, some := List.cons_ne_nil _ _
    contentLength := rfl, paddingLength := rfl }

/-- A request with a parameter and a body, which comes between the two params records. -/
def bodyRequest : WireRequest :=
  { start := keepingBegin, params := [oneParam], lastParams := oneParamRequest.lastParams, inputs := [twoOctets]
    lastStdin := oneParamRequest.lastStdin
    records := [.params oneParam, .stdin twoOctets, .lastParams oneParamRequest.lastParams, .lastStdin oneParamRequest.lastStdin]
    interleaved := .left (.right (.left (.right .nil))) }

/-- The request that was executed is the one that was sent. -/
structure Executed (start : BeginRecord) (assignments : List (List UInt8 × List UInt8)) (connection : Connection)
    (request : Request) : Prop where
  called : connection.executed = [request]
  requestId : request.requestId = start.header.requestId
  flags : request.flags = start.flags
  stdin : request.stdin.octets = []
  parameters : ∀ name, (get request.parameters name).map (Option.map SlString.octets) = (lastValue assignments name).map some

/-- **A request without a body is delivered.** However its octets are cut into
buffers, `sl_main_request_execute` is called once, in the call that receives the
last octet, with the last value of each name that was sent, no input, and the id
and the flags that were sent. -/
theorem bodyless_request_delivered (all : P.Succeeds) (b : BodylessRequest) {front : List (List UInt8)}
    {buffer : List UInt8} (some : buffer ≠ []) (cut : front.flatten ++ buffer = b.octets) :
    Ensures (deliver .fresh front buffer : Prog P _) fun (before, after) =>
      before.executed = [] ∧ ∃ request, Executed b.start b.assignments after request := by
  have all_padded : ∀ input ∈ b.wire.inputs, input.Padded := fun input there => absurd there List.not_mem_nil
  refine (ensures_deliver_padded all b.wire all_padded some (cut.trans b.wire_octets.symm)).mono fun (before, after) led => ?_
  obtain ⟨none, request, performed⟩ := led
  exact ⟨none, request, performed.called, performed.borne.requestId, performed.borne.flags, performed.borne.stdin,
    performed.borne.parameters⟩

theorem bodyless_request_delivered_one_param :
    Ensures (deliver .fresh [oneParamRequest.octets.take 3] (oneParamRequest.octets.drop 3) : Prog .ample _)
      fun (before, after) => before.executed = [] ∧
        ∃ request, Executed oneParamRequest.start oneParamRequest.assignments after request :=
  bodyless_request_delivered Platform.ample_succeeds oneParamRequest (by decide) (by decide)

end Cpptrw.Main
