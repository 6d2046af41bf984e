import Cpptrw.Fcgi.Message
import Cpptrw.Fcgi.Log
import Cpptrw.Lib.Consume

/-!
# The record parser (`sl_fcgi.c`)

`sl_fcgi_parser_parse` and the three functions it hands an octet to. The
`while (1)` loops around the `switch` of the params and stdin parsers are loops
here too: a case either returns (`done`) or continues with the state it has
just set (`next`), and the same octet. Four passes are enough for both, which
`Cpptrw.Fcgi.Record` proves along with everything else.
-/

namespace Cpptrw.Fcgi

open Lib Lib.Prog Text

variable {P : Platform}

/-- `sl_fcgi_parser_dispatch_type`. -/
def dispatchType (type : UInt8) : ParserState :=
  if type = typeBeginRequest then .beginRoleB1
  else if type = typeParams then .paramNameLengthB3
  else if type = typeStdin then .stdinData
  else .error

namespace Parser

/-- `sl_fcgi_parser_parse_begin_request`. -/
def parseBeginRequest (p : Parser) (octet : UInt8) : Parser :=
  match p.state with
  | .beginRoleB1 =>
    { p with beginMessage := { p.beginMessage with role := octet.toNat <<< 8 }, state := .beginRoleB0 }
  | .beginRoleB0 =>
    { p with beginMessage := { p.beginMessage with role := p.beginMessage.role ||| octet.toNat }, state := .beginFlags }
  | .beginFlags => { p with beginMessage := { p.beginMessage with flags := octet }, state := .beginSkip5 }
  | .beginSkip5 => { p with state := .beginSkip4 }
  | .beginSkip4 => { p with state := .beginSkip3 }
  | .beginSkip3 => { p with state := .beginSkip2 }
  | .beginSkip2 => { p with state := .beginSkip1 }
  | .beginSkip1 => { p with messageSize := 16, state := .finished }
  | _ => { p with state := .error }

/-! ## Params -/

/-- The octet announces a length of four octets. -/
def isLong (octet : UInt8) : Prop := octet &&& 0x80 = 0x80

instance : DecidablePred isLong := fun _ => inferInstanceAs (Decidable (_ = _))

/-- The case of the first octet of a name length: a new parameter. -/
def paramNameLengthB3 (octet : UInt8) (p : Parser) : Prog P (Flow Parser Parser) := do
  if ← allocate sizeofMsgParam then
    let size := if p.params = [] then 0 else p.messageSize
    if isLong octet then
      pure (.done { p with
        params := p.params ++ [{ nameLength := (octet &&& 0x7f).toNat <<< 24 }]
        messageSize := size + 4
        state := .paramNameLengthB2 })
    else
      pure (.done { p with
        params := p.params ++ [{ nameLength := octet.toNat }]
        messageSize := size + 1
        state := .paramValueLengthB3 })
  else
    pure (.done { p with state := .error })

/-- The cases that or one more octet into the name length. -/
def paramNameLength (octet : UInt8) (shift : Nat) (next : ParserState) (p : Parser) : Prog P (Flow Parser Parser) := do
  let param ← lift p.last
  pure (.done { p.setLast { param with nameLength := param.nameLength ||| octet.toNat <<< shift } with state := next })

/-- The case of the first octet of a value length. -/
def paramValueLengthB3 (octet : UInt8) (p : Parser) : Prog P (Flow Parser Parser) := do
  let param ← lift p.last
  if isLong octet then
    pure (.done { p.setLast { param with valueLength := (octet &&& 0x7f).toNat <<< 24 } with
      messageSize := p.messageSize + 4
      state := .paramValueLengthB2 })
  else
    pure (.done { p.setLast { param with valueLength := octet.toNat } with
      messageSize := p.messageSize + 1
      state := .paramNameData })

/-- The cases that or one more octet into the value length. -/
def paramValueLength (octet : UInt8) (shift : Nat) (next : ParserState) (p : Parser) : Prog P (Flow Parser Parser) := do
  let param ← lift p.last
  pure (.done { p.setLast { param with valueLength := param.valueLength ||| octet.toNat <<< shift } with state := next })

/-- Make sure that the last parameter has a region for its name; `none` if
there is no memory for it. -/
def openName (p : Parser) : Prog P (Option Parser) := do
  let param ← lift p.last
  if param.name = none then
    if ← allocate (param.nameLength + 1) then
      pure (some { p.setLast { param with name := some (Buffer.fresh (param.nameLength + 1)) } with
        readCounter := param.nameLength
        messageSize := p.messageSize + param.nameLength })
    else
      pure none
  else
    pure (some p)

/-- The case of a name octet, or of the octet behind the name. -/
def paramNameData (octet : UInt8) (p : Parser) : Prog P (Flow Parser Parser) := do
  match ← openName p with
  | none => pure (.done { p with state := .error })
  | some p =>
    let param ← lift p.last
    if p.readCounter = 0 then
      let name ← lift (storeAt param.name param.nameLength 0)
      pure (.next { p.setLast { param with name := some name } with state := .paramValueData })
    else
      let name ← lift (storeAt param.name (sub64 param.nameLength p.readCounter) octet)
      pure (.done { p.setLast { param with name := some name } with readCounter := p.readCounter - 1 })

/-- Make sure that the last parameter has a region for its value. -/
def openValue (p : Parser) : Prog P (Option Parser) := do
  let param ← lift p.last
  if param.value = none then
    if ← allocate (param.valueLength + 1) then
      pure (some { p.setLast { param with value := some (Buffer.fresh (param.valueLength + 1)) } with
        readCounter := param.valueLength
        messageSize := p.messageSize + param.valueLength })
    else
      pure none
  else
    pure (some p)

/-- Where the parser goes from the end of a pair. -/
def afterPair (p : Parser) : Flow Parser Parser :=
  if p.messageSize = p.messageHeader.contentLength then
    if p.messageHeader.paddingLength = 0 then .done { p with state := .finished }
    else .next { p with readCounter := p.messageHeader.paddingLength.toNat, state := .paramPadding }
  else .next { p with state := .paramNameLengthB3 }

theorem afterPair_finished {p : Parser} (full : p.messageSize = p.messageHeader.contentLength)
    (none : p.messageHeader.paddingLength = 0) : afterPair p = .done { p with state := .finished } := by
  rw [afterPair, if_pos full, if_pos none]

theorem afterPair_padding {p : Parser} (full : p.messageSize = p.messageHeader.contentLength)
    (some : p.messageHeader.paddingLength ≠ 0) :
    afterPair p = .next { p with readCounter := p.messageHeader.paddingLength.toNat, state := .paramPadding } := by
  rw [afterPair, if_pos full, if_neg some]

theorem afterPair_more {p : Parser} (short : p.messageSize ≠ p.messageHeader.contentLength) :
    afterPair p = .next { p with state := .paramNameLengthB3 } := by
  rw [afterPair, if_neg short]

/-- The case of a value octet, or of the octet behind the value. -/
def paramValueData (octet : UInt8) (p : Parser) : Prog P (Flow Parser Parser) := do
  match ← openValue p with
  | none => pure (.done { p with state := .error })
  | some p =>
    let param ← lift p.last
    if p.readCounter = 0 then
      let value ← lift (storeAt param.value param.valueLength 0)
      let parameterName ← lift (readAt param.name param.nameLength)
      let parameterValue ← lift (value.read param.valueLength)
      logWriteFormat parameterFormat [.string (some parameterName), .string (some parameterValue)]
      pure (afterPair (p.setLast { param with value := some value }))
    else
      let value ← lift (storeAt param.value (sub64 param.valueLength p.readCounter) octet)
      pure (.done { p.setLast { param with value := some value } with readCounter := p.readCounter - 1 })

/-- The cases of a padding octet, or of the octet behind the padding:
`if (parser->read_counter-- == 0) parser->state = SL_FCGI_PARSER_STATE_FINISHED`. -/
def padding (p : Parser) : Parser :=
  { p with
    readCounter := sub64 p.readCounter 1
    state := if p.readCounter = 0 then .finished else p.state }

theorem padding_of_zero {p : Parser} (h : p.readCounter = 0) :
    p.padding = { p with readCounter := sub64 0 1, state := .finished } := by
  rw [padding, if_pos h, h]

theorem padding_of_pos {p : Parser} (h : 0 < p.readCounter) (small : p.readCounter < 2 ^ 64) :
    p.padding = { p with readCounter := p.readCounter - 1 } := by
  rw [padding, if_neg (Nat.pos_iff_ne_zero.mp h), sub64_of_le small h]

/-- The `switch` of `sl_fcgi_parser_parse_params`. -/
def paramsSwitch (octet : UInt8) (p : Parser) : Prog P (Flow Parser Parser) :=
  match p.state with
  | .paramNameLengthB3 => paramNameLengthB3 octet p
  | .paramNameLengthB2 => paramNameLength octet 16 .paramNameLengthB1 p
  | .paramNameLengthB1 => paramNameLength octet 8 .paramNameLengthB0 p
  | .paramNameLengthB0 => paramNameLength octet 0 .paramValueLengthB3 p
  | .paramValueLengthB3 => paramValueLengthB3 octet p
  | .paramValueLengthB2 => paramValueLength octet 16 .paramValueLengthB1 p
  | .paramValueLengthB1 => paramValueLength octet 8 .paramValueLengthB0 p
  | .paramValueLengthB0 => paramValueLength octet 0 .paramNameData p
  | .paramNameData => paramNameData octet p
  | .paramValueData => paramValueData octet p
  | .paramPadding => pure (.done p.padding)
  | _ => pure (.done { p with state := .error })

/-- `sl_fcgi_parser_parse_params`. -/
def parseParams (p : Parser) (octet : UInt8) : Prog P Parser := whileLoop (paramsSwitch octet) 4 p

/-! ## Stdin -/

/-- Make sure that there is a region for the data. -/
def openStdin (p : Parser) : Prog P (Option Parser) := do
  if p.stdinStream.data = none then
    let length := p.messageHeader.contentLength
    if ← allocate (length + 1) then
      pure (some { p with
        stdinStream := ⟨length, some (Buffer.fresh (length + 1))⟩
        readCounter := length
        messageSize := p.messageSize + length })
    else
      pure none
  else
    pure (some p)

/-- Where the parser goes from the end of the data. -/
def afterStdin (p : Parser) : Flow Parser Parser :=
  if 0 < p.messageHeader.paddingLength then
    .next { p with readCounter := p.messageHeader.paddingLength.toNat, state := .stdinPadding }
  else .next { p with state := .finished }

/-- The case of a data octet, or of the octet behind the data. -/
def stdinData (octet : UInt8) (p : Parser) : Prog P (Flow Parser Parser) := do
  match ← openStdin p with
  | none => pure (.done { p with stdinStream.length := p.messageHeader.contentLength, state := .error })
  | some p =>
    if p.readCounter = 0 then
      let data ← lift (storeAt p.stdinStream.data p.stdinStream.length 0)
      let stdin ← lift (data.read p.stdinStream.length)
      logWriteFormat stdinFormat [.string (some stdin)]
      pure (afterStdin { p with stdinStream.data := some data })
    else
      let data ← lift (storeAt p.stdinStream.data (sub64 p.stdinStream.length p.readCounter) octet)
      pure (.done { p with stdinStream.data := some data, readCounter := p.readCounter - 1 })

/-- The `switch` of `sl_fcgi_parser_parse_stdin`. -/
def stdinSwitch (octet : UInt8) (p : Parser) : Prog P (Flow Parser Parser) :=
  match p.state with
  | .stdinData => stdinData octet p
  | .stdinPadding => pure (.done p.padding)
  | _ => pure (.done { p with state := .error })

/-- `sl_fcgi_parser_parse_stdin`. -/
def parseStdin (p : Parser) (octet : UInt8) : Prog P Parser := whileLoop (stdinSwitch octet) 4 p

/-! ## The octet loop -/

/-- The end of the params and stdin cases: a record that ends here leaves the octet. -/
def lookahead (p : Parser) : Verdict Parser := if p.Settled then .stop p else .advance p

/-- One octet of `sl_fcgi_parser_parse`. -/
def parseOctet (p : Parser) (octet : UInt8) : Prog P (Verdict Parser) :=
  let header := p.messageHeader
  match p.state with
  | .version => pure (.advance { p with messageHeader := { header with version := octet }, state := .type })
  | .type => pure (.advance { p with messageHeader := { header with type := octet }, state := .requestIdB1 })
  | .requestIdB1 => pure (.advance { p with
      messageHeader := { header with requestId := octet.toNat <<< 8 }, state := .requestIdB0 })
  | .requestIdB0 => pure (.advance { p with
      messageHeader := { header with requestId := header.requestId ||| octet.toNat }, state := .contentLengthB1 })
  | .contentLengthB1 => pure (.advance { p with
      messageHeader := { header with contentLength := octet.toNat <<< 8 }, state := .contentLengthB0 })
  | .contentLengthB0 => pure (.advance { p with
      messageHeader := { header with contentLength := header.contentLength ||| octet.toNat }, state := .paddingLength })
  | .paddingLength => pure (.advance { p with
      messageHeader := { header with paddingLength := octet }, state := .paddingReserved })
  | .paddingReserved =>
    let p := { p with messageHeader := { header with reserved := octet } }
    if header.contentLength = 0 then pure (.finish { p with state := .finished })
    else pure (.advance { p with state := dispatchType header.type })
  | .beginRoleB1 | .beginRoleB0 | .beginFlags | .beginSkip5 | .beginSkip4 | .beginSkip3 | .beginSkip2 | .beginSkip1 =>
    pure (.advance (p.parseBeginRequest octet))
  | .paramNameLengthB3 | .paramNameLengthB2 | .paramNameLengthB1 | .paramNameLengthB0
  | .paramValueLengthB3 | .paramValueLengthB2 | .paramValueLengthB1 | .paramValueLengthB0
  | .paramNameData | .paramValueData | .paramPadding => p.parseParams octet >>= fun p => pure p.lookahead
  | .stdinData | .stdinPadding => p.parseStdin octet >>= fun p => pure p.lookahead
  | .error | .finished => pure (.stop p)

/-- `sl_fcgi_parser_parse`: the parser, and the number of octets parsed. -/
def parse (p : Parser) (buffer : List UInt8) : Prog P (Parser × Nat) := consume parseOctet p buffer

/-- A stream handed to `sl_fcgi_parser_parse` in pieces. -/
def parseChunks (p : Parser) (chunks : List (List UInt8)) : Prog P (Parser × Nat) := consumeChunks parseOctet p chunks

/-- A settled parser takes no octet, and the parser settles when it stops early. -/
theorem settling : Settling (parseOctet : Parser → UInt8 → Prog P (Verdict Parser)) Settled where
  absorbs := by
    rintro p (h | h) octet <;> simp [parseOctet, h]
  settles := by
    have look : ∀ p : Parser, p.lookahead.Settles Settled := by
      intro p
      unfold lookahead
      split
      · assumption
      · trivial
    intro p octet
    unfold parseOctet
    split <;> try exact returns_pure trivial
    case h_8 =>
      dsimp only
      split
      · exact returns_pure (Or.inl rfl)
      · exact returns_pure trivial
    case h_30 h => exact returns_pure (Or.inr h)
    case h_31 h => exact returns_pure (Or.inl h)
    all_goals exact (returns_any _).bind fun q _ => returns_pure (look q)

theorem parse_append (p : Parser) (xs ys : List UInt8) :
    (p.parse (xs ++ ys) : Prog P _) = p.parse xs >>= fun r => r.1.parse ys >>= fun r' => pure (r'.1, r.2 + r'.2) :=
  settling.consume_append p xs ys

theorem parseChunks_eq (p : Parser) (chunks : List (List UInt8)) :
    (p.parseChunks chunks : Prog P _) = p.parse chunks.flatten :=
  settling.consumeChunks_eq p chunks

/-! ## What the parser is made of -/

variable {C : (α : Type) → Prog P α → Prop}

theorem compositional_openName (law : Compositional P C) (p : Parser) : C _ (p.openName : Prog P _) := by
  refine law.bind (law.lift _) fun param => ?_
  split
  · exact law.allocating (law.pure _) (law.pure _)
  · exact law.pure _

theorem compositional_openValue (law : Compositional P C) (p : Parser) : C _ (p.openValue : Prog P _) := by
  refine law.bind (law.lift _) fun param => ?_
  split
  · exact law.allocating (law.pure _) (law.pure _)
  · exact law.pure _

theorem compositional_openStdin (law : Compositional P C) (p : Parser) : C _ (p.openStdin : Prog P _) := by
  unfold openStdin
  split
  · exact law.allocating (law.pure _) (law.pure _)
  · exact law.pure _

theorem compositional_paramNameData (law : Compositional P C) (octet : UInt8) (p : Parser) :
    C _ (p.paramNameData octet : Prog P _) := by
  refine law.bind (compositional_openName law p) fun r => ?_
  cases r with
  | none => exact law.pure _
  | some p =>
    refine law.bind (law.lift _) fun param => ?_
    split
    · exact law.bind (law.lift _) fun _ => law.pure _
    · exact law.bind (law.lift _) fun _ => law.pure _

theorem compositional_paramValueData (law : Compositional P C) (octet : UInt8) (p : Parser) :
    C _ (p.paramValueData octet : Prog P _) := by
  refine law.bind (compositional_openValue law p) fun r => ?_
  cases r with
  | none => exact law.pure _
  | some p =>
    refine law.bind (law.lift _) fun param => ?_
    split
    · refine law.bind (law.lift _) fun value => law.bind (law.lift _) fun name => law.bind (law.lift _) fun octets => ?_
      exact law.bind (compositional_log law _ _) fun _ => law.pure _
    · exact law.bind (law.lift _) fun _ => law.pure _

theorem compositional_stdinData (law : Compositional P C) (octet : UInt8) (p : Parser) : C _ (p.stdinData octet : Prog P _) := by
  refine law.bind (compositional_openStdin law p) fun r => ?_
  cases r with
  | none => exact law.pure _
  | some p =>
    dsimp only
    split
    · refine law.bind (law.lift _) fun data => law.bind (law.lift _) fun octets => ?_
      exact law.bind (compositional_log law _ _) fun _ => law.pure _
    · exact law.bind (law.lift _) fun _ => law.pure _

theorem compositional_paramsSwitch (law : Compositional P C) (octet : UInt8) (p : Parser) :
    C _ (p.paramsSwitch octet : Prog P _) := by
  have start : C _ (p.paramNameLengthB3 octet : Prog P _) := by
    refine law.allocating ?_ (law.pure _)
    rw [if_pos rfl]
    dsimp only
    split
    · exact law.pure _
    · exact law.pure _
  have value : C _ (p.paramValueLengthB3 octet : Prog P _) := by
    refine law.bind (law.lift _) fun param => ?_
    split
    · exact law.pure _
    · exact law.pure _
  unfold paramsSwitch
  split
  all_goals first
    | exact start
    | exact value
    | exact compositional_paramNameData law octet p
    | exact compositional_paramValueData law octet p
    | exact law.pure _
    | exact law.bind (law.lift _) fun _ => law.pure _

theorem compositional_stdinSwitch (law : Compositional P C) (octet : UInt8) (p : Parser) : C _ (p.stdinSwitch octet : Prog P _) := by
  unfold stdinSwitch
  split
  · exact compositional_stdinData law octet p
  · exact law.pure _
  · exact law.pure _

theorem compositional_parseOctet (law : Compositional P C) (p : Parser) (octet : UInt8) : C _ (p.parseOctet octet : Prog P _) := by
  have params : C _ (p.parseParams octet : Prog P _) := law.whileLoop (compositional_paramsSwitch law octet) _ _
  have stdin : C _ (p.parseStdin octet : Prog P _) := law.whileLoop (compositional_stdinSwitch law octet) _ _
  unfold parseOctet
  dsimp only
  split
  all_goals first
    | exact law.pure _
    | exact law.bind params fun _ => law.pure _
    | exact law.bind stdin fun _ => law.pure _
    | skip
  split
  · exact law.pure _
  · exact law.pure _

theorem compositional_parse (law : Compositional P C) (p : Parser) (buffer : List UInt8) : C _ (p.parse buffer : Prog P _) :=
  compositional_consume law (compositional_parseOctet law) buffer p

end Parser

end Cpptrw.Fcgi
