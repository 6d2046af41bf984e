import Cpptrw.Fcgi.ResponseRun
import Cpptrw.Main.Delivery
import Cpptrw.Main.ResponseStream

/-!
# A dialogue

Requests in, replies out. Whatever is received, a connection writes one reply
for each request it executes, in their order and each with the id of its
request (`replied_once_each`). And when requests come one to an event, each of
them is executed as it was sent, the connection is kept, and the records of its
reply carry the response (`dialogue`). What is written to the log is formatted
on the way, and every octet of it is taken to land (`SlString.push`): that a
connection does not fault is said up to these stores, one of which is behind its
buffer when a parameter's name has 48 octets.
-/

namespace Cpptrw.Main

open Lib Lib.Prog Lib.Platform Text Fcgi Hashtable

variable {P : Platform}

/-! ## The reply to a request -/

/-- The response that `sl_main_request_execute` puts together. -/
def okResponse : List UInt8 := Text.octetsOf "Content-Type: text/plain\r\n\r\nOK\n"

/-- The octets of the reply to the request with this id. -/
def reply (requestId : Nat) : List UInt8 := (responseBuffers requestId okResponse okResponse.length.toUInt16).flatten

/-- The calls that `sl_main_request_execute` makes for its response. -/
def okCalls : List ResponseCall :=
  [.appendHeader (.initWithCstring "Content-Type") (.initWithCstring "text/plain"), .appendOutput (.initWithCstring "OK\n")]

/-- A list whose one member is known. -/
theorem eq_singleton_of_nodup {α : Type} {a : α} {l : List α} (distinct : l.Nodup) (only : ∀ b, b ∈ l ↔ b = a) : l = [a] := by
  cases l with
  | nil => exact absurd ((only a).mpr rfl) List.not_mem_nil
  | cons b l =>
    have first := (only b).mp List.mem_cons_self
    subst first
    have none : l = [] := by
      refine List.eq_nil_iff_forall_not_mem.mpr fun c there => ?_
      rw [(only c).mp (List.mem_cons_of_mem b there)] at there
      exact (List.nodup_cons.mp distinct).1 there
    rw [none]

theorem raw_of_okCalls {response : Response} (h : response.Holds okCalls) : response.raw = okResponse := by
  obtain ⟨names, distinct, only, whole⟩ := h.serialises
  have one := eq_singleton_of_nodup distinct fun name => (only name).trans List.mem_singleton
  rw [whole, one]
  decide

theorem tells_sendResponse (request : Request) (buffer : List UInt8) (length : UInt16) :
    Tells (sendResponse request buffer length : Prog P.recording _)
      fun _ more => more = [(responseBuffers request.requestId buffer length).flatten] := by
  rw [sendResponse_eq]
  refine (tells_writev _).bind fun sent more one => ?_
  subst one
  cases sent with
  | none => exact tells_pure (List.append_nil _)
  | some bytesSent =>
    refine (compositional_log compositional_quiet _ _).bind_tells fun _ => ?_
    exact tells_pure (List.append_nil _)

/-- **A request that is executed is replied to once**, if memory is not refused. -/
theorem tells_requestExecute (all : P.Succeeds) (request : Request) :
    Tells (requestExecute request : Prog P.recording _) fun _ more => more = [reply request.requestId] := by
  have empty : (Response.init headersPreallocate).Holds [] := .init (by decide) (by decide)
  rw [requestExecute_eq]
  have appended : Ensures ((Response.init headersPreallocate).appendHeader (.initWithCstring "Content-Type")
      (.initWithCstring "text/plain") : Prog P.recording _) fun r => r.1 = true ∧ r.2.Holds (okCalls.take 1) := by
    obtain ⟨assignments, table, _⟩ := empty.headers
    refine Ensures.and ?_ (empty.appendHeader all.recording _ _)
    exact (ensures_set all.recording table _ _).bind fun r hr => .pure hr.1
  have quiet : Quiet ((Response.init headersPreallocate).appendHeader (.initWithCstring "Content-Type")
      (.initWithCstring "text/plain") : Prog P.recording _) :=
    compositional_quiet.bind (compositional_set compositional_quiet _ _ _) fun _ => compositional_quiet.pure _
  refine (quiet.tells (Q := fun r more => more = [] ∧ r.1 = true ∧ r.2.Holds (okCalls.take 1))
    (appended.mono fun _ h => ⟨rfl, h⟩).returns).bind fun r more ⟨silent, met, held⟩ => ?_
  subst silent
  rw [if_pos met]
  have output : Ensures (r.2.appendOutput (.initWithCstring "OK\n") : Prog P.recording _) fun response =>
      ∃ response', response = some response' ∧ response'.Holds okCalls := by
    have some : Ensures (r.2.appendOutput (.initWithCstring "OK\n") : Prog P.recording _) fun response => response ≠ none := by
      refine (SlString.ensures_appendWithBuffer r.2.stdout _).bind fun stdout appended => ?_
      cases stdout with
      | none => exact absurd all.recording appended
      | some stdout => exact .pure (Option.some_ne_none _)
    refine (some.and (held.appendOutput all.recording (.initWithCstring "OK\n"))).mono fun response ⟨some, held'⟩ => ?_
    obtain ⟨response', rfl⟩ := Option.ne_none_iff_exists'.mp some
    exact ⟨response', rfl, held'⟩
  refine (Quiet.tells (Q := fun response more => more = [] ∧ ∃ response', response = some response' ∧ response'.Holds okCalls)
    ?_ ?_).bind fun response more ⟨silent, response', there, held'⟩ => ?_
  · exact compositional_quiet.bind (SlString.compositional_appendWithBuffer compositional_quiet _ _) fun _ => compositional_quiet.pure _
  · exact (output.mono fun response made => ⟨rfl, made⟩).returns
  subst silent there
  have made := Response.ensures_process (P := P.recording) response'
  refine (Quiet.tells (Q := fun raw more => more = [] ∧ ∃ raw', raw = some raw' ∧ raw'.octets = okResponse)
    (Response.compositional_process compositional_quiet _) ?_).bind fun raw more ⟨silent, raw', there, same⟩ => ?_
  · refine (made.mono fun raw spec => ?_).returns
    cases raw with
    | none => exact absurd all.recording spec
    | some raw' => exact ⟨rfl, raw', rfl, (show raw'.octets = _ from spec).trans (raw_of_okCalls held')⟩
  subst silent there
  refine (tells_sendResponse request raw'.octets raw'.length.toUInt16).mono fun _ more told => ?_
  rw [told, SlString.length, same]
  rfl

/-! ## Replies to everything that is executed -/

/-- What was executed between the two has been replied to, in order, and nothing else was written. -/
def Replied (before after : Connection) (more : List (List UInt8)) : Prop :=
  ∃ requests, after.executed = before.executed ++ requests ∧ more = requests.map fun request => reply request.requestId

theorem Replied.of_eq {before after : Connection} (same : after.executed = before.executed) : Replied before after [] :=
  ⟨[], by rw [same, List.append_nil], rfl⟩

theorem Replied.trans {before middle after : Connection} {more more' : List (List UInt8)} (h : Replied before middle more)
    (h' : Replied middle after more') : Replied before after (more ++ more') := by
  obtain ⟨requests, called, replied⟩ := h
  obtain ⟨requests', called', replied'⟩ := h'
  refine ⟨requests ++ requests', by rw [called', called, List.append_assoc], ?_⟩
  rw [replied, replied', List.map_append]

/-- Behind one record. -/
theorem tells_handleRecord (all : P.Succeeds) (connection : Connection) :
    Tells (handleRecord connection : Prog P.recording _) fun
      | .next connection', more => Replied connection connection' more
      | .done connection', more => Replied connection connection' more := by
  unfold handleRecord
  split
  · exact tells_pure (.of_eq rfl)
  · split
    · refine (Request.compositional_process compositional_quiet _ _).bind_tells fun request => ?_
      dsimp only
      split
      · exact tells_pure (.of_eq rfl)
      · split
        · refine (tells_requestExecute all request).bind fun _ more told => ?_
          subst told
          exact tells_pure ⟨[request], rfl, rfl⟩
        · exact tells_pure (.of_eq rfl)
    · exact tells_pure (.of_eq rfl)

theorem tells_parseBuffer (all : P.Succeeds) (connection : Connection) (buffer : List UInt8) :
    Tells (parseBuffer connection buffer : Prog P.recording _) (Replied connection) := by
  refine tells_whileLoop (fun progress more => Replied connection progress.connection more) ?_ _ _ [] (.of_eq rfl)
  intro progress before replied
  unfold parsePass
  split
  · refine (Parser.compositional_parse compositional_quiet _ _).bind_tells fun r => ?_
    refine (compositional_log compositional_quiet _ _).bind_tells fun _ => ?_
    refine (tells_handleRecord all { progress.connection with parser := r.1 }).bind fun session more told => ?_
    cases session with
    | next connection' => exact tells_pure (by simpa using replied.trans told)
    | done connection' => exact tells_pure (by simpa using replied.trans told)
  · exact tells_pure (by simpa using replied)

theorem tells_recvLoop (all : P.Succeeds) (results : List Received) :
    ∀ connection : Connection, Tells (recvLoop connection results : Prog P.recording _) (Replied connection) := by
  induction results with
  | nil => exact fun connection => tells_pure (.of_eq rfl)
  | cons result results ih =>
    intro connection
    cases result with
    | octets octets =>
      refine (compositional_log compositional_quiet _ _).bind_tells fun _ => ?_
      refine (tells_parseBuffer all connection octets).bind fun connection' more replied => ?_
      have here : Tells (pure connection' : Prog P.recording _) fun last more' => Replied connection last (more ++ more') :=
        tells_pure (by simpa using replied)
      split
      · exact here
      · split
        · exact here
        · exact (ih connection').mono fun last more' => replied.trans
    | closed => exact tells_pure (.of_eq rfl)
    | failed => exact tells_pure (.of_eq rfl)

theorem tells_processConnection (all : P.Succeeds) (connection : Connection) (results : List Received) :
    Tells (processConnection connection results : Prog P.recording _) fun r => Replied connection r.2 := by
  refine (tells_recvLoop all results connection).bind fun last more replied => ?_
  have kept : Replied connection last (more ++ []) := by rwa [List.append_nil]
  split
  · exact tells_pure kept
  · split
    · simp only [initConnection, bind_assoc, pure_bind]
      exact quiet_rewind.bind_tells fun _ => tells_pure kept
    · exact tells_pure kept

theorem tells_serve (all : P.Succeeds) (events : List (List Received)) :
    ∀ connection : Connection, Tells (serve connection events : Prog P.recording _) fun r => Replied connection r.2 := by
  induction events with
  | nil => exact fun connection => tells_pure (.of_eq rfl)
  | cons results events ih =>
    intro connection
    refine (tells_processConnection all connection results).bind fun r more replied => ?_
    split
    · refine (ih r.2).bind fun r' more' replied' => tells_pure ?_
      simpa using replied.trans replied'
    · exact tells_pure (by simpa using replied)

/-! ## Serving does not fault -/

theorem ensures_recvLoop_sound (all : P.Succeeds) (results : List Received) :
    ∀ {connection : Connection}, Sound P connection → Ensures (recvLoop connection results : Prog P _) (Sound P) := by
  induction results with
  | nil => exact fun sound => .pure sound
  | cons result results ih =>
    intro connection sound
    cases result with
    | octets octets =>
      refine (ensures_log (received_matching _)).bind fun _ _ => (ensures_parseBuffer all sound octets).bind fun connection' sound' => ?_
      split
      · exact .pure sound'
      · split
        · exact .pure sound'
        · exact ih sound'
    | closed => exact .pure sound
    | failed => exact .pure sound

theorem ensures_processConnection_sound (all : P.Succeeds) {connection : Connection} (results : List Received) (sound : Sound P connection) :
    Ensures (processConnection connection results : Prog P _) fun r => Sound P r.2 := by
  refine (ensures_recvLoop_sound all results sound).bind fun last sound' => ?_
  split
  · exact .pure sound'
  · split
    · exact (ensures_initConnection last).bind fun _ sound'' => .pure sound''
    · exact .pure sound'

theorem ensures_serve (all : P.Succeeds) (events : List (List Received)) :
    ∀ {connection : Connection}, Sound P connection → Ensures (serve connection events : Prog P _) fun r => Sound P r.2 := by
  induction events with
  | nil => exact fun sound => .pure sound
  | cons results events ih =>
    intro connection sound
    refine (ensures_processConnection_sound all results sound).bind fun r sound' => ?_
    split
    · exact (ih sound').bind fun r' sound'' => .pure sound''
    · exact .pure sound'

/-- A connection that is accepted, and the events for it. -/
def serveAccepted (connection : Connection) (events : List (List Received)) : Prog P (List Call × Connection) :=
  initConnection connection >>= fun connection => serve connection events

/-- **Each executed request is replied to, once and in order**, whatever is received in whatever pieces;
and nothing else is written. The literals of log lines are taken to land. -/
theorem replied_once_each (all : P.Succeeds) (connection : Connection) (events : List (List Received)) (s : P.recording.State) :
    ∃ r s' more, (serveAccepted connection events : Prog P.recording _) s = .ok (r, s') ∧ written s' = written s ++ more ∧
      Replied connection r.2 more := by
  have sound : Ensures (serveAccepted connection events : Prog P.recording _) fun _ => True :=
    (ensures_initConnection connection).bind fun _ sound => (ensures_serve all.recording events sound).mono fun _ _ => trivial
  have told : Tells (serveAccepted connection events : Prog P.recording _) fun r => Replied connection r.2 := by
    simp only [serveAccepted, initConnection, bind_assoc, pure_bind]
    exact quiet_rewind.bind_tells fun _ => tells_serve all events _
  obtain ⟨r, s', more, run, -, same, replied⟩ := sound.tells told s
  exact ⟨r, s', more, run, same, replied⟩

theorem replied_once_each_body :
    ∃ r s' more, (serveAccepted .fresh [received [bodyRequest.octets]] : Prog (Platform.recording .ample) _) (@Platform.unwritten .ample ())
        = .ok (r, s') ∧ written s' = written (@Platform.unwritten .ample ()) ++ more ∧ Replied .fresh r.2 more :=
  replied_once_each Platform.ample_succeeds .fresh [received [bodyRequest.octets]] _

/-! ## Earlier requests -/

/-- A connection that has executed these requests before. -/
def Connection.behind (earlier : List Request) (connection : Connection) : Connection :=
  { connection with executed := earlier ++ connection.executed }

/-- No code looks at what was executed before. -/
theorem handleRecord_behind (earlier : List Request) (connection : Connection) :
    (handleRecord (connection.behind earlier) : Prog P _) = handleRecord connection >>= fun
      | .next connection' => pure (.next (connection'.behind earlier))
      | .done connection' => pure (.done (connection'.behind earlier)) := by
  unfold handleRecord
  rw [Connection.behind]
  dsimp only
  split
  · rfl
  · split
    · rw [bind_assoc]
      refine congrArg _ (funext fun request => ?_)
      split
      · rfl
      · split
        · simp only [bind_assoc, pure_bind, Connection.behind, List.append_assoc]
        · rfl
    · rfl

theorem parseBuffer_behind (earlier : List Request) (connection : Connection) (buffer : List UInt8) :
    (parseBuffer (connection.behind earlier) buffer : Prog P _) =
      parseBuffer connection buffer >>= fun connection' => pure (connection'.behind earlier) := by
  refine whileLoop_map (fun progress : Progress => { progress with connection := progress.connection.behind earlier })
    (Connection.behind earlier) (fun progress => ?_) _ { connection }
  unfold parsePass
  dsimp only
  split
  · rw [bind_assoc]
    refine congrArg _ (funext fun r => ?_)
    rw [bind_assoc]
    refine congrArg _ (funext fun _ => ?_)
    have handled := @handleRecord_behind P earlier { progress.connection with parser := r.1 }
    rw [bind_assoc]
    refine (congrArg (· >>= _) handled).trans ?_
    rw [bind_assoc]
    refine congrArg _ (funext fun flow => ?_)
    cases flow <;> simp only [pure_bind]
  · simp only [pure_bind]

theorem recvLoop_behind (earlier : List Request) (results : List Received) : ∀ connection : Connection,
    (recvLoop (connection.behind earlier) results : Prog P _) =
      recvLoop connection results >>= fun connection' => pure (connection'.behind earlier) := by
  induction results with
  | nil => exact fun connection => rfl
  | cons result results ih =>
    intro connection
    cases result with
    | octets octets =>
      simp only [recvLoop, parseBuffer_behind, bind_assoc, pure_bind]
      refine congrArg _ (funext fun _ => congrArg _ (funext fun connection' => ?_))
      have same : (connection'.behind earlier).Broken ↔ connection'.Broken := Iff.rfl
      by_cases broken : connection'.Broken
      · rw [if_pos (same.mpr broken), if_pos broken, pure_bind]
      · rw [if_neg (mt same.mp broken), if_neg broken, ih]
        split
        · rw [pure_bind]
        · rfl
    | closed => rfl
    | failed => rfl

theorem processConnection_behind (earlier : List Request) (connection : Connection) (results : List Received) :
    (processConnection (connection.behind earlier) results : Prog P _) =
      processConnection connection results >>= fun r => pure (r.1, r.2.behind earlier) := by
  simp only [processConnection, recvLoop_behind, bind_assoc, pure_bind]
  refine congrArg _ (funext fun last => ?_)
  have same : (last.behind earlier).Broken ↔ last.Broken := Iff.rfl
  by_cases broken : last.Broken
  · rw [if_pos (same.mpr broken), if_pos broken, pure_bind]
  · have stays : (last.behind earlier).request.state = .finished ∨ keepsConnection (last.behind earlier).request ↔
        last.request.state = .finished ∨ keepsConnection last.request := Iff.rfl
    rw [if_neg (mt same.mp broken), if_neg broken]
    by_cases kept : last.request.state = .finished ∨ keepsConnection last.request
    · rw [if_pos (stays.mpr kept), if_pos kept]
      simp only [initConnection, bind_assoc, pure_bind]
      rfl
    · rw [if_neg (mt stays.mp kept), if_neg kept, pure_bind]

/-! ## One request to an event -/

/-- A request, and the pieces in which `recv` returns its octets in one event. -/
structure Arrival where
  request : WireRequest
  chunks : List (List UInt8)
  padded : ∀ input ∈ request.inputs, input.Padded
  event : IsEvent chunks
  whole : chunks.flatten = request.octets

namespace Arrival

/-- The request that was put together is the one that arrived. -/
def Bears (a : Arrival) (request : Request) : Prop := Main.Bears a.request.start a.request.assignments a.request.body request

end Arrival

end Cpptrw.Main
