import Cpptrw.Lib.Buffer
import Cpptrw.Text.Format

/-!
# FastCGI messages and the parser's state (`sl_fcgi.h`)

The structures of the header file, field by field. Lengths and ids are natural
numbers: the parser assembles them from octets, so they stay in the range of
their C types. `message_size` counts octets that the parser holds in memory and
does not wrap; `read_counter` can wrap and does so where it is decremented. The
linked list from `first_param` to `last_param` is a list, a name or value is
its region of memory or `NULL`, and the arena and log pointers are left to the
platform.
-/

namespace Cpptrw.Fcgi

open Lib

def version1 : UInt8 := 1
def flagKeepConn : UInt8 := 1

def typeBeginRequest : UInt8 := 1
def typeEndRequest : UInt8 := 3
def typeParams : UInt8 := 4
def typeStdin : UInt8 := 5
def typeStdout : UInt8 := 6

/-- `sl_fcgi_parser_state`. -/
inductive ParserState where
  | version
  | type
  | requestIdB1
  | requestIdB0
  | contentLengthB1
  | contentLengthB0
  | paddingLength
  | paddingReserved
  | beginRoleB1
  | beginRoleB0
  | beginFlags
  | beginSkip5
  | beginSkip4
  | beginSkip3
  | beginSkip2
  | beginSkip1
  | paramNameLengthB3
  | paramNameLengthB2
  | paramNameLengthB1
  | paramNameLengthB0
  | paramValueLengthB3
  | paramValueLengthB2
  | paramValueLengthB1
  | paramValueLengthB0
  | paramNameData
  | paramValueData
  | paramPadding
  | stdinData
  | stdinPadding
  | finished
  | error
  deriving DecidableEq, Repr

/-- `sl_fcgi_msg_header`. -/
structure MsgHeader where
  version : UInt8 := 0
  type : UInt8 := 0
  requestId : Nat := 0
  contentLength : Nat := 0
  paddingLength : UInt8 := 0
  reserved : UInt8 := 0
  deriving DecidableEq, Repr

/-- `sl_fcgi_msg_begin`; its reserved octets are never stored. -/
structure MsgBegin where
  role : Nat := 0
  flags : UInt8 := 0
  deriving DecidableEq, Repr

/-- `sl_fcgi_msg_param`. -/
structure MsgParam where
  nameLength : Nat := 0
  valueLength : Nat := 0
  name : Option Buffer := none
  value : Option Buffer := none
  deriving DecidableEq, Repr

/-- `sizeof(sl_fcgi_msg_param)`. -/
def sizeofMsgParam : Nat := 32

/-- `sl_fcgi_msg_stdin`. -/
structure MsgStdin where
  length : Nat := 0
  data : Option Buffer := none
  deriving DecidableEq, Repr

/-- `sl_fcgi_parser`. -/
structure Parser where
  state : ParserState := .version
  readCounter : Nat := 0
  messageSize : Nat := 0
  messageHeader : MsgHeader := {}
  beginMessage : MsgBegin := {}
  params : List MsgParam := []
  stdinStream : MsgStdin := {}
  deriving DecidableEq, Repr

namespace Parser

/-- `sl_fcgi_parser_init`. -/
def init : Parser := {}

/-- The parser takes no more octets. -/
def Settled (p : Parser) : Prop := p.state = .finished ∨ p.state = .error

instance : DecidablePred Settled := fun _ => inferInstanceAs (Decidable (_ ∨ _))

/-- `*parser->last_param`. -/
def last (p : Parser) : Except Fault MsgParam :=
  match p.params.getLast? with
  | some param => .ok param
  | none => .error .nullPointer

/-- Stores through `parser->last_param`. -/
def setLast (p : Parser) (param : MsgParam) : Parser := { p with params := p.params.dropLast ++ [param] }

end Parser

/-- A store into a region that may be missing. -/
def storeAt (buffer : Option Buffer) (i : Nat) (octet : UInt8) : Except Fault Buffer :=
  match buffer with
  | none => .error .nullPointer
  | some b => b.store i octet

/-- The first octets of a region that may be missing. -/
def readAt (buffer : Option Buffer) (n : Nat) : Except Fault (List UInt8) :=
  match buffer with
  | none => .error .nullPointer
  | some b => b.read n

end Cpptrw.Fcgi
