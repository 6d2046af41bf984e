import Cpptrw.Fcgi.Response
import Cpptrw.Hashtable.Refinement

/-!
# A connection (`main.c`, `sl_net.c`)

What is read from a socket goes through `sl_main_parse_buffer`, and a request
that is finished there is executed. A connection is its parser and its request,
and two histories that no code looks at: the records handed to
`sl_fcgi_request_process` since `sl_net_init_connection`, and the requests that
`sl_main_request_execute` was called with. The socket, the address, the log and the slot's
`is_busy` are left out. A call of `sl_main_process_connection` is handed what
`recv` answers during it; where that list ends, `recv` has nothing more to give
and returns `-1`.
-/

namespace Cpptrw.Main

open Lib Lib.Prog Text Fcgi Hashtable

variable {P : Platform}

/-- `SL_NET_RECV_BUFFER_SIZE`. -/
def recvBufferSize : Nat := 10240

/-- `SL_MAIN_PARAMS_PREALLOCATE`. -/
def paramsPreallocate : Nat := 64

/-- `SL_MAIN_HEADERS_PREALLOCATE`. -/
def headersPreallocate : Nat := 16

/-! ## Executing a request -/

/-- A 16-bit field after `htons`, as it lies in memory. -/
def htons (n : Nat) : List UInt8 := [(n / 256).toUInt8, n.toUInt8]

/-- An `sl_fcgi_msg_header` whose wide fields went through `htons`, in memory. -/
def headerOctets (header : MsgHeader) : List UInt8 :=
  [header.version, header.type] ++ htons header.requestId ++ htons header.contentLength ++
    [header.paddingLength, header.reserved]

/-- `sizeof(sl_fcgi_msg_end)`. -/
def sizeofMsgEnd : Nat := 8

/-- `sl_main_request_send_response`; `false` is the return value `-1`. -/
def sendResponse (request : Request) (buffer : List UInt8) (length : UInt16) : Prog P Bool := do
  let stdoutHeader : MsgHeader :=
    { version := version1, type := typeStdout, requestId := request.requestId, contentLength := length.toNat }
  let emptyStdoutHeader : MsgHeader := { version := version1, type := typeStdout, requestId := request.requestId }
  let endHeader : MsgHeader :=
    { version := version1, type := typeEndRequest, requestId := request.requestId, contentLength := sizeofMsgEnd }
  let endMessage : List UInt8 := List.replicate sizeofMsgEnd 0
  match ← writev [headerOctets stdoutHeader, buffer.take length.toNat, headerOctets emptyStdoutHeader,
      headerOctets endHeader, endMessage] with
  | none => pure false
  | some bytesSent =>
    logWriteFormat sentFormat [.number (UInt64.ofNat bytesSent)]
    pure true

/-- `sl_main_request_execute`; `false` is the return value `-1`. The length of
the response becomes a `uint16_t` on the way to `sl_main_request_send_response`. -/
def requestExecute (request : Request) : Prog P Bool := do
  let response := Response.init headersPreallocate
  let (appended, response) ← response.appendHeader (.initWithCstring "Content-Type") (.initWithCstring "text/plain")
  if appended then
    match ← response.appendOutput (.initWithCstring "OK\n") with
    | none => pure false
    | some response =>
      match ← response.process with
      | none => pure false
      | some rawResponse => sendResponse request rawResponse.octets rawResponse.length.toUInt16
  else
    pure false

/-! ## Parsing a buffer -/

/-- `sl_net_connection`, with the histories. -/
structure Connection where
  parser : Parser
  request : Request
  records : List Parser := []
  executed : List Request := []
  deriving DecidableEq, Repr

/-- `sl_net_init_connection`: the arena is made, or rewound when it exists. -/
def initConnection (connection : Connection) : Prog P Connection :=
  rewind >>= fun _ => pure { connection with parser := .init, request := .init paramsPreallocate, records := [] }

/-- The state of the loop of `sl_main_parse_buffer`. -/
structure Progress where
  connection : Connection
  bytesParsed : Nat := 0
  previous : Nat := 0

/-- The loop of `sl_main_parse_buffer` behind the call of the parser: whether it
goes on, or is left by a `break`. -/
def handleRecord (connection : Connection) : Prog P (Flow Connection Connection) :=
  if connection.parser.state = .error then pure (.done connection)
  else if connection.parser.state = .finished then
    connection.request.process connection.parser >>= fun request =>
      let records := connection.records ++ [connection.parser]
      if request.state = .error then pure (.done { connection with request, records })
      else if request.state = .finished then
        requestExecute request >>= fun _ =>
          pure (.done { connection with request, records, executed := connection.executed ++ [request] })
      else pure (.next { connection with request, records, parser := .init })
  else pure (.next connection)

/-- One pass through the loop of `sl_main_parse_buffer`. -/
def parsePass (buffer : List UInt8) (progress : Progress) : Prog P (Flow Progress Connection) :=
  if progress.bytesParsed < buffer.length then
    progress.connection.parser.parse (buffer.drop progress.bytesParsed) >>= fun r =>
      logWriteFormat parsedFormat [.number (UInt64.ofNat (progress.bytesParsed + r.2 - progress.previous))] >>= fun _ =>
        handleRecord { progress.connection with parser := r.1 } >>= fun
          | .done connection => pure (.done connection)
          | .next connection =>
            pure (.next { connection, bytesParsed := progress.bytesParsed + r.2, previous := progress.bytesParsed + r.2 })
  else pure (.done progress.connection)

/-- `sl_main_parse_buffer`. At most two passes are made for each octet, and a
last look at the condition. -/
def parseBuffer (connection : Connection) (buffer : List UInt8) : Prog P Connection :=
  whileLoop (parsePass buffer) (2 * buffer.length + 1) { connection }

/-- A sequence of calls of `sl_main_parse_buffer`. -/
def parseBuffers : Connection → List (List UInt8) → Prog P Connection
  | connection, [] => pure connection
  | connection, buffer :: buffers => parseBuffer connection buffer >>= fun connection => parseBuffers connection buffers

/-! ## A readiness event -/

/-- What `recv` returns: octets, `0` or `-1`. -/
inductive Received where
  | octets (octets : List UInt8)
  | closed
  | failed
  deriving DecidableEq, Repr

/-- The test made after each buffer and again after the loop. -/
def Connection.Broken (connection : Connection) : Prop :=
  connection.request.state = .error ∨ connection.parser.state = .error

instance : DecidablePred Connection.Broken := fun _ => inferInstanceAs (Decidable (_ ∨ _))

/-- The loop of `sl_main_process_connection`. -/
def recvLoop (connection : Connection) : List Received → Prog P Connection
  | .octets octets :: received =>
    logWriteFormat receivedFormat [.number (UInt64.ofNat octets.length)] >>= fun _ =>
      parseBuffer connection octets >>= fun connection =>
        if connection.Broken then pure connection
        else if octets.length < recvBufferSize then pure connection
        else recvLoop connection received
  | .closed :: _ => pure connection
  | .failed :: _ => pure connection
  | [] => pure connection

/-- The flag `SL_FCGI_FLAG_KEEP_CONN` of a request. -/
def keepsConnection (request : Request) : Prop := request.flags &&& flagKeepConn = flagKeepConn

instance : DecidablePred keepsConnection := fun _ => inferInstanceAs (Decidable (_ = _))

/-- How a call of `sl_main_process_connection` ended: its return value, and
whether it called `sl_net_init_connection`. -/
structure Call where
  kept : Bool
  reinitialised : Bool
  deriving DecidableEq, Repr

/-- `sl_main_process_connection`. -/
def processConnection (connection : Connection) (received : List Received) : Prog P (Call × Connection) :=
  recvLoop connection received >>= fun connection =>
    if connection.Broken then pure (⟨false, false⟩, connection)
    else if connection.request.state = .finished ∨ keepsConnection connection.request then
      initConnection connection >>= fun connection => pure (⟨true, true⟩, connection)
    else pure (⟨false, false⟩, connection)

/-- The calls for a connection, one for each event, until one of them returns `0`
and the connection is closed. -/
def serve (connection : Connection) : List (List Received) → Prog P (List Call × Connection)
  | [] => pure ([], connection)
  | received :: events => processConnection connection received >>= fun r =>
    if r.1.kept then serve r.2 events >>= fun r' => pure (r.1 :: r'.1, r'.2)
    else pure ([r.1], r.2)

/-! ## Executing does not fault -/

theorem ensures_sendResponse (request : Request) (buffer : List UInt8) (length : UInt16) :
    Ensures (sendResponse request buffer length : Prog P _) fun _ => True := by
  refine (ensures_writev _).bind fun sent _ => ?_
  cases sent with
  | none => exact .pure trivial
  | some n => exact (ensures_log (sent_matching _)).bind fun _ _ => .pure trivial

theorem ensures_requestExecute (request : Request) : Ensures (requestExecute request : Prog P _) fun _ => True := by
  have table : Refines (Response.init headersPreallocate).headers [] :=
    .init (by decide) (by decide) true
  unfold requestExecute Response.appendHeader
  simp only [bind_assoc, pure_bind]
  refine (set_outcome table _ _).bind fun r _ => ?_
  split
  · refine (Response.ensures_appendOutput _ _).bind fun response _ => ?_
    cases response with
    | none => exact .pure trivial
    | some response =>
      refine (Response.ensures_process _).bind fun raw _ => ?_
      cases raw with
      | none => exact .pure trivial
      | some raw => exact ensures_sendResponse request _ _
  · exact .pure trivial

/-! ## What holds of all that calls the platform -/

section Composition

variable {C : (α : Type) → Prog P α → Prop}

theorem compositional_requestExecute (law : Compositional P C) (writes : ∀ buffers, C _ (writev buffers)) (request : Request) :
    C _ (requestExecute request : Prog P _) := by
  have append (response : Response) (name value : SlString) : C _ (response.appendHeader name value : Prog P _) :=
    law.bind (compositional_set law _ _ _) fun _ => law.pure _
  have output (response : Response) (octets : SlString) : C _ (response.appendOutput octets : Prog P _) :=
    law.bind (SlString.compositional_appendWithBuffer law _ _) fun _ => law.pure _
  refine law.bind (append _ _ _) fun r => ?_
  dsimp only
  split
  · refine law.bind (output _ _) fun response => ?_
    cases response with
    | none => exact law.pure _
    | some response =>
      refine law.bind (Response.compositional_process law response) fun raw => ?_
      cases raw with
      | none => exact law.pure _
      | some raw =>
        refine law.bind (writes _) fun sent => ?_
        cases sent with
        | none => exact law.pure _
        | some bytesSent => exact law.bind (compositional_log law _ _) fun _ => law.pure _
  · exact law.pure _

theorem compositional_handleRecord (law : Compositional P C) (writes : ∀ buffers, C _ (writev buffers)) (connection : Connection) :
    C _ (handleRecord connection : Prog P _) := by
  unfold handleRecord
  split
  · exact law.pure _
  · split
    · refine law.bind (Request.compositional_process law _ _) fun request => ?_
      dsimp only
      split
      · exact law.pure _
      · split
        · exact law.bind (compositional_requestExecute law writes request) fun _ => law.pure _
        · exact law.pure _
    · exact law.pure _

theorem compositional_parseBuffer (law : Compositional P C) (writes : ∀ buffers, C _ (writev buffers)) (connection : Connection)
    (buffer : List UInt8) : C _ (parseBuffer connection buffer : Prog P _) := by
  refine law.whileLoop (fun progress => ?_) _ _
  unfold parsePass
  split
  · refine law.bind (Parser.compositional_parse law _ _) fun r => law.bind (compositional_log law _ _) fun _ => ?_
    refine law.bind (compositional_handleRecord law writes _) fun flow => ?_
    cases flow with
    | next connection => exact law.pure _
    | done connection => exact law.pure _
  · exact law.pure _

/-- What holds of parsing a buffer holds of the loop of `sl_main_process_connection`. -/
theorem compositional_recvLoop (law : Compositional P C)
    (parse : ∀ connection buffer, C _ (parseBuffer connection buffer : Prog P _)) (results : List Received) :
    ∀ connection : Connection, C _ (recvLoop connection results : Prog P _) := by
  induction results with
  | nil => exact fun connection => law.pure _
  | cons result results ih =>
    intro connection
    cases result with
    | octets octets =>
      refine law.bind (compositional_log law _ _) fun _ => law.bind (parse connection octets) fun connection' => ?_
      split
      · exact law.pure _
      · split
        · exact law.pure _
        · exact ih connection'
    | closed => exact law.pure _
    | failed => exact law.pure _

end Composition

end Cpptrw.Main
