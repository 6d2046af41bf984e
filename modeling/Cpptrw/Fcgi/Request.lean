import Cpptrw.Fcgi.Parser
import Cpptrw.Hashtable.Table

/-!
# The request (`sl_fcgi.c`)

A request takes finished records one by one. The parameters are a table from
names to strings, whose key pointer is an optional string because the table is
handed whatever `sl_string_create_from_buffer` returns; a value that is `NULL`
is stored as such. What `sl_hashtable_set` returns is not looked at.
-/

namespace Cpptrw.Fcgi

open Lib Lib.Prog Text Hashtable

variable {P : Platform}

/-- `sl_fcgi_request_state`. -/
inductive RequestState where
  | begin
  | paramOrStdin
  | param
  | stdin
  | finished
  | error
  deriving DecidableEq, Repr

/-- `sl_fcgi_request`. -/
structure Request where
  state : RequestState := .begin
  requestId : Nat := 0
  flags : UInt8 := 0
  parameters : Table (Option SlString)
  stdin : SlString := .empty
  deriving DecidableEq, Repr

namespace Request

/-- `sl_fcgi_request_init`. -/
def init (paramHashtableSize : Nat) : Request := { parameters := Hashtable.init paramHashtableSize true }

/-- `sl_fcgi_request_append_param`, over the list from `parser->first_param`. -/
def appendParam (request : Request) : List MsgParam → Prog P Request
  | [] => pure request
  | parameter :: next => do
    let nameOctets ← lift (readAt parameter.name parameter.nameLength)
    let name ← SlString.createFromBuffer nameOctets parameter.nameLength
    let valueOctets ← lift (readAt parameter.value parameter.valueLength)
    let value ← SlString.createFromBuffer valueOctets parameter.valueLength
    let (_, parameters) ← Hashtable.set request.parameters (name.map SlString.octets) value
    appendParam { request with parameters } next

/-- `sl_fcgi_request_append_stdin`. -/
def appendStdin (request : Request) (parser : Parser) : Prog P Request :=
  if parser.stdinStream.length = 0 then pure request
  else
    lift (readAt parser.stdinStream.data parser.stdinStream.length) >>= fun data =>
      request.stdin.appendWithBuffer data >>= fun
        | none => pure { request with state := .error }
        | some stdin => pure { request with stdin }

/-- `sl_fcgi_request_process`. -/
def process (request : Request) (parser : Parser) : Prog P Request :=
  let type := parser.messageHeader.type
  let empty := parser.messageHeader.contentLength = 0
  if parser.state ≠ .finished then pure { request with state := .error }
  else
    match request.state with
    | .begin =>
      if type ≠ typeBeginRequest then pure { request with state := .error }
      else pure { request with
        flags := parser.beginMessage.flags
        requestId := parser.messageHeader.requestId
        state := .paramOrStdin }
    | .paramOrStdin =>
      if type = typeParams then
        if empty then pure { request with state := .stdin } else request.appendParam parser.params
      else if type = typeStdin then
        if empty then pure { request with state := .param } else request.appendStdin parser
      else pure { request with state := .error }
    | .param =>
      if type ≠ typeParams then pure { request with state := .error }
      else if empty then pure { request with state := .finished }
      else request.appendParam parser.params
    | .stdin =>
      if type ≠ typeStdin then pure { request with state := .error }
      else if empty then pure { request with state := .finished }
      else request.appendStdin parser
    | .finished => pure { request with state := .error }
    | .error => pure request

/-- A sequence of records handed to `sl_fcgi_request_process`. -/
def processAll : Request → List Parser → Prog P Request
  | request, [] => pure request
  | request, parser :: parsers => request.process parser >>= fun request => processAll request parsers

/-! ## What processing is made of -/

variable {C : (α : Type) → Prog P α → Prop}

theorem compositional_appendParam (law : Compositional P C) (parameters : List MsgParam) :
    ∀ request : Request, C _ (request.appendParam parameters : Prog P _) := by
  induction parameters with
  | nil => exact fun request => law.pure request
  | cons parameter next ih =>
    intro request
    refine law.bind (law.lift _) fun nameOctets => ?_
    refine law.bind (SlString.compositional_createFromBuffer law _ _) fun name => ?_
    refine law.bind (law.lift _) fun valueOctets => ?_
    refine law.bind (SlString.compositional_createFromBuffer law _ _) fun value => ?_
    refine law.bind (compositional_set law _ _ _) fun r => ?_
    exact ih _

theorem compositional_appendStdin (law : Compositional P C) (request : Request) (parser : Parser) :
    C _ (request.appendStdin parser : Prog P _) := by
  unfold appendStdin
  split
  · exact law.pure _
  · refine law.bind (law.lift _) fun data => ?_
    refine law.bind (SlString.compositional_appendWithBuffer law _ _) fun stdin => ?_
    cases stdin with
    | none => exact law.pure _
    | some stdin => exact law.pure _

theorem compositional_process (law : Compositional P C) (request : Request) (parser : Parser) :
    C _ (request.process parser : Prog P _) := by
  have params := compositional_appendParam law parser.params request
  have stdin := compositional_appendStdin law request parser
  unfold process
  dsimp only
  cases request.state with
  | begin => split_ifs <;> exact law.pure _
  | paramOrStdin =>
    dsimp only
    split_ifs
    · exact law.pure _
    · exact law.pure _
    · exact params
    · exact law.pure _
    · exact stdin
    · exact law.pure _
  | param =>
    dsimp only
    split_ifs
    · exact law.pure _
    · exact law.pure _
    · exact law.pure _
    · exact params
  | stdin =>
    dsimp only
    split_ifs
    · exact law.pure _
    · exact law.pure _
    · exact law.pure _
    · exact stdin
  | finished => split_ifs <;> exact law.pure _
  | error => split_ifs <;> exact law.pure _

end Request

end Cpptrw.Fcgi
