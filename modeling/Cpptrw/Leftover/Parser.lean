import Cpptrw.Fcgi.Parser
import Cpptrw.Leftover.Hashtable

/-!
# The record parser in the arena (`sl_fcgi.c`)

The parser of `Cpptrw.Fcgi.Parser` with its parameters and its data in memory.
While a parameter is parsed it is `opened`, and what is known about it grows
with the state: its lengths, then the octets of its name that were read, then
those of its value. `ParserOk` says for every state what was written by then.
-/

namespace Cpptrw.Leftover

open Lib Lib.Prog Arena Fcgi
open Text.Sharing (SlString initWithBuffer)

/-- `sl_fcgi_parser`, without the pointers to arena and log. -/
structure Parser where
  state : ParserState := .version
  readCounter : Nat := 0
  messageSize : Nat := 0
  messageHeader : MsgHeader := {}
  beginMessage : MsgBegin := {}
  firstParam : Nat := 0
  lastParam : Nat := 0
  stdinLength : Nat := 0
  stdinData : Nat := 0
  deriving DecidableEq, Repr

namespace Parser

/-- The parser takes no more octets. -/
def Settled (p : Parser) : Prop := p.state = .finished ∨ p.state = .error

instance : DecidablePred Settled := fun _ => inferInstanceAs (Decidable (_ ∨ _))

/-- `sl_fcgi_parser_parse_begin_request`. -/
def parseBeginRequest (p : Parser) (octet : UInt8) : Parser :=
  match p.state with
  | .beginRoleB1 =>
    { p with beginMessage := { p.beginMessage with role := octet.toNat <<< 8 }, state := .beginRoleB0 }
  | .beginRoleB0 =>
    { p with beginMessage := { p.beginMessage with role := p.beginMessage.role ||| octet.toNat }, state := .beginFlags }
  | .beginFlags => { p with beginMessage := { p.beginMessage with flags := octet }, state := .beginSkip5 }
  | .beginSkip5 => { p with state := .beginSkip4 }
  | .beginSkip4 => { p with state := .beginSkip3 }
  | .beginSkip3 => { p with state := .beginSkip2 }
  | .beginSkip2 => { p with state := .beginSkip1 }
  | .beginSkip1 => { p with messageSize := 16, state := .finished }
  | _ => { p with state := .error }

/-! ## Params -/

/-- The fields `name_length` and `name` of a parameter. -/
def nameFields : Nat × Nat := (8, 16)

/-- The fields `value_length` and `value`. -/
def valueFields : Nat × Nat := (12, 24)

/-- The first octet of a length is stored: how much it adds to the message, and whether there are three more. -/
def storeLength (S : Setting) (param : Nat) (fields : Nat × Nat) (octet : UInt8) : Code (Nat × Bool) :=
  if Fcgi.Parser.isLong octet then do
    store32 S param fields.1 ((octet &&& 0x7f).toNat <<< 24)
    pure (4, true)
  else do
    store32 S param fields.1 octet.toNat
    pure (1, false)

/-- The case of the first octet of a name length: a new parameter. -/
def paramNameLengthB3 (S : Setting) (octet : UInt8) (p : Parser) : Code (Flow Parser Parser) := do
  let param ← allocate S .param sizeofMsgParam
  if param = 0 then pure (.done { p with state := .error })
  else
    storeWords S param [0, 0, 0, 0]
    Machine.when (p.lastParam ≠ 0) (store64 S p.lastParam 0 param)
    let (size, long) ← storeLength S param nameFields octet
    pure (.done { p with
      firstParam := if p.firstParam = 0 then param else p.firstParam
      lastParam := param
      messageSize := (if p.firstParam = 0 then 0 else p.messageSize) + size
      state := if long then .paramNameLengthB2 else .paramValueLengthB3 })

/-- The case of the first octet of a value length. -/
def paramValueLengthB3 (S : Setting) (octet : UInt8) (p : Parser) : Code (Flow Parser Parser) := do
  let (size, long) ← storeLength S p.lastParam valueFields octet
  pure (.done { p with
    messageSize := p.messageSize + size
    state := if long then .paramValueLengthB2 else .paramNameData })

/-- The cases that or one more octet into a length. -/
def paramLength (S : Setting) (fields : Nat × Nat) (octet : UInt8) (shift : Nat) (next : ParserState) (p : Parser) :
    Code (Flow Parser Parser) := do
  let length ← load32 S p.lastParam fields.1
  store32 S p.lastParam fields.1 (length ||| octet.toNat <<< shift)
  pure (.done { p with state := next })

/-- Make sure that the last parameter has a region for its name, or its value;
`none` if there is no memory for it. A length has 31 bits. -/
def openData (S : Setting) (fields : Nat × Nat) (p : Parser) : Code (Option Parser) := do
  let data ← load64 S p.lastParam fields.2
  if data = 0 then
    let length ← load32 S p.lastParam fields.1
    let data ← allocate S .data (length + 1)
    store64 S p.lastParam fields.2 data
    if data = 0 then pure none
    else pure (some { p with readCounter := length, messageSize := p.messageSize + length })
  else
    pure (some p)

/-- The case of a name octet, or of the octet behind the name. -/
def paramNameData (S : Setting) (octet : UInt8) (p : Parser) : Code (Flow Parser Parser) := do
  match ← openData S nameFields p with
  | none => pure (.done { p with state := .error })
  | some p =>
    let nameLength ← load32 S p.lastParam 8
    let name ← load64 S p.lastParam 16
    if p.readCounter = 0 then
      store S name nameLength [0]
      pure (.next { p with state := .paramValueData })
    else
      store S name (sub64 nameLength p.readCounter) [octet]
      pure (.done { p with readCounter := p.readCounter - 1 })

/-- Where the parser goes from the end of a pair. -/
def afterPair (p : Parser) : Flow Parser Parser :=
  if p.messageSize = p.messageHeader.contentLength then
    if p.messageHeader.paddingLength = 0 then .done { p with state := .finished }
    else .next { p with readCounter := p.messageHeader.paddingLength.toNat, state := .paramPadding }
  else .next { p with state := .paramNameLengthB3 }

/-- The case of a value octet, or of the octet behind the value. -/
def paramValueData (S : Setting) (octet : UInt8) (p : Parser) : Code (Flow Parser Parser) := do
  match ← openData S valueFields p with
  | none => pure (.done { p with state := .error })
  | some p =>
    let valueLength ← load32 S p.lastParam 12
    let value ← load64 S p.lastParam 24
    if p.readCounter = 0 then
      store S value valueLength [0]
      let nameLength ← load32 S p.lastParam 8
      let name ← load64 S p.lastParam 16
      logWriteFormat S parameterFormat [.string (initWithBuffer name nameLength), .string (initWithBuffer value valueLength)]
      pure p.afterPair
    else
      store S value (sub64 valueLength p.readCounter) [octet]
      pure (.done { p with readCounter := p.readCounter - 1 })

/-- The cases of a padding octet, or of the octet behind the padding:
`if (parser->read_counter-- == 0) parser->state = SL_FCGI_PARSER_STATE_FINISHED`. -/
def padding (p : Parser) : Parser :=
  { p with
    readCounter := sub64 p.readCounter 1
    state := if p.readCounter = 0 then .finished else p.state }

/-- The `switch` of `sl_fcgi_parser_parse_params`. -/
def paramsSwitch (S : Setting) (octet : UInt8) (p : Parser) : Code (Flow Parser Parser) :=
  match p.state with
  | .paramNameLengthB3 => paramNameLengthB3 S octet p
  | .paramNameLengthB2 => paramLength S nameFields octet 16 .paramNameLengthB1 p
  | .paramNameLengthB1 => paramLength S nameFields octet 8 .paramNameLengthB0 p
  | .paramNameLengthB0 => paramLength S nameFields octet 0 .paramValueLengthB3 p
  | .paramValueLengthB3 => paramValueLengthB3 S octet p
  | .paramValueLengthB2 => paramLength S valueFields octet 16 .paramValueLengthB1 p
  | .paramValueLengthB1 => paramLength S valueFields octet 8 .paramValueLengthB0 p
  | .paramValueLengthB0 => paramLength S valueFields octet 0 .paramNameData p
  | .paramNameData => paramNameData S octet p
  | .paramValueData => paramValueData S octet p
  | .paramPadding => pure (.done p.padding)
  | _ => pure (.done { p with state := .error })

/-- `sl_fcgi_parser_parse_params`. -/
def parseParams (S : Setting) (p : Parser) (octet : UInt8) : Code Parser := Machine.whileLoop (paramsSwitch S octet) S.fuel p

/-! ## Stdin -/

/-- Make sure that there is a region for the data. -/
def openStdin (S : Setting) (p : Parser) : Code (Option Parser) :=
  if p.stdinData = 0 then do
    let length := p.messageHeader.contentLength
    let data ← allocate S .data (length + 1)
    if data = 0 then pure none
    else pure (some { p with stdinLength := length, stdinData := data, readCounter := length, messageSize := p.messageSize + length })
  else
    pure (some p)

/-- Where the parser goes from the end of the data. -/
def afterStdin (p : Parser) : Flow Parser Parser :=
  if 0 < p.messageHeader.paddingLength then
    .next { p with readCounter := p.messageHeader.paddingLength.toNat, state := .stdinPadding }
  else .next { p with state := .finished }

/-- The case of a data octet, or of the octet behind the data. -/
def stdinOctet (S : Setting) (octet : UInt8) (p : Parser) : Code (Flow Parser Parser) := do
  match ← openStdin S p with
  | none => pure (.done { p with stdinLength := p.messageHeader.contentLength, state := .error })
  | some p =>
    if p.readCounter = 0 then
      store S p.stdinData p.stdinLength [0]
      logWriteFormat S stdinFormat [.string (initWithBuffer p.stdinData p.stdinLength)]
      pure p.afterStdin
    else
      store S p.stdinData (sub64 p.stdinLength p.readCounter) [octet]
      pure (.done { p with readCounter := p.readCounter - 1 })

/-- The `switch` of `sl_fcgi_parser_parse_stdin`. -/
def stdinSwitch (S : Setting) (octet : UInt8) (p : Parser) : Code (Flow Parser Parser) :=
  match p.state with
  | .stdinData => stdinOctet S octet p
  | .stdinPadding => pure (.done p.padding)
  | _ => pure (.done { p with state := .error })

/-- `sl_fcgi_parser_parse_stdin`. -/
def parseStdin (S : Setting) (p : Parser) (octet : UInt8) : Code Parser := Machine.whileLoop (stdinSwitch S octet) S.fuel p

/-! ## The octet loop -/

/-- The end of the params and stdin cases: a record that ends here leaves the octet. -/
def lookahead (p : Parser) : Verdict Parser := if p.Settled then .stop p else .advance p

/-- One octet of `sl_fcgi_parser_parse`. -/
def parseOctet (S : Setting) (p : Parser) (octet : UInt8) : Code (Verdict Parser) :=
  let header := p.messageHeader
  match p.state with
  | .version => pure (.advance { p with messageHeader := { header with version := octet }, state := .type })
  | .type => pure (.advance { p with messageHeader := { header with type := octet }, state := .requestIdB1 })
  | .requestIdB1 => pure (.advance { p with
      messageHeader := { header with requestId := octet.toNat <<< 8 }, state := .requestIdB0 })
  | .requestIdB0 => pure (.advance { p with
      messageHeader := { header with requestId := header.requestId ||| octet.toNat }, state := .contentLengthB1 })
  | .contentLengthB1 => pure (.advance { p with
      messageHeader := { header with contentLength := octet.toNat <<< 8 }, state := .contentLengthB0 })
  | .contentLengthB0 => pure (.advance { p with
      messageHeader := { header with contentLength := header.contentLength ||| octet.toNat }, state := .paddingLength })
  | .paddingLength => pure (.advance { p with
      messageHeader := { header with paddingLength := octet }, state := .paddingReserved })
  | .paddingReserved =>
    let p := { p with messageHeader := { header with reserved := octet } }
    if header.contentLength = 0 then pure (.finish { p with state := .finished })
    else pure (.advance { p with state := dispatchType header.type })
  | .beginRoleB1 | .beginRoleB0 | .beginFlags | .beginSkip5 | .beginSkip4 | .beginSkip3 | .beginSkip2 | .beginSkip1 =>
    pure (.advance (p.parseBeginRequest octet))
  | .paramNameLengthB3 | .paramNameLengthB2 | .paramNameLengthB1 | .paramNameLengthB0
  | .paramValueLengthB3 | .paramValueLengthB2 | .paramValueLengthB1 | .paramValueLengthB0
  | .paramNameData | .paramValueData | .paramPadding => p.parseParams S octet >>= fun p => pure p.lookahead
  | .stdinData | .stdinPadding => p.parseStdin S octet >>= fun p => pure p.lookahead
  | .error | .finished => pure (.stop p)

/-- `sl_fcgi_parser_parse`: the parser, and the number of octets parsed. -/
def parse (S : Setting) : Parser → List UInt8 → Code (Parser × Nat)
  | p, [] => pure (p, 0)
  | p, octet :: rest => p.parseOctet S octet >>= fun
    | .advance p => parse S p rest >>= fun r => pure (r.1, r.2 + 1)
    | .finish p => pure (p, 1)
    | .stop p => pure (p, 0)

end Parser

end Cpptrw.Leftover
