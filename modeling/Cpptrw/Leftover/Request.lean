import Cpptrw.Leftover.Parsing
import Cpptrw.Main.Connection

/-!
# The request and the response in the arena (`sl_fcgi.c`, `main.c`)

What is done with finished records. The two strings of
`sl_main_request_execute` that become keys and values of the header table are
reached by their addresses; the third one is only copied.
-/

namespace Cpptrw.Leftover

open Lib Lib.Prog Arena Fcgi
open Text (octetsOf sizeofString)
open Text.Sharing (SlString)
open Main (headersPreallocate headerOctets sizeofMsgEnd)

/-- `sl_fcgi_request`, without the pointers to arena and log. -/
structure Request where
  state : RequestState := .begin
  requestId : Nat := 0
  flags : UInt8 := 0
  parameters : SlHashtable
  stdin : SlString := emptyString
  deriving DecidableEq, Repr

namespace Request

/-- `sl_fcgi_request_init`. -/
def init (paramHashtableSize : Nat) : Request := { parameters := .init paramHashtableSize true }

/-- The name or the value of a parameter as a string: `sl_string_create_from_buffer`, called with the two fields. -/
def stringOfParam (S : Setting) (parameter : Nat) (fields : Nat × Nat) : Code Nat := do
  let data ← load64 S parameter fields.2
  let length ← load32 S parameter fields.1
  createFromBuffer S (.memory data length) length

/-- One pass of the loop of `sl_fcgi_request_append_param`. -/
def appendPass (S : Setting) : Nat × SlHashtable → Code (Flow (Nat × SlHashtable) SlHashtable)
  | (parameter, t) =>
    if parameter = 0 then pure (.done t)
    else do
      let name ← stringOfParam S parameter Parser.nameFields
      let value ← stringOfParam S parameter Parser.valueFields
      let (_, t) ← t.set S name value
      let next ← load64 S parameter 0
      pure (.next (next, t))

/-- `sl_fcgi_request_append_param`. -/
def appendParam (S : Setting) (request : Request) (parser : Parser) : Code Request := do
  let parameters ← Machine.whileLoop (appendPass S) S.fuel (parser.firstParam, request.parameters)
  pure { request with parameters }

/-- `sl_fcgi_request_append_stdin`. -/
def appendStdin (S : Setting) (request : Request) (parser : Parser) : Code Request :=
  if parser.stdinLength = 0 then pure request
  else
    appendWithBuffer S request.stdin (.memory parser.stdinData parser.stdinLength) >>= fun
      | none => pure { request with state := .error }
      | some stdin => pure { request with stdin }

/-- `sl_fcgi_request_process`. -/
def process (S : Setting) (request : Request) (parser : Parser) : Code Request :=
  let type := parser.messageHeader.type
  let empty := parser.messageHeader.contentLength = 0
  if parser.state ≠ .finished then pure { request with state := .error }
  else
    match request.state with
    | .begin =>
      if type ≠ typeBeginRequest then pure { request with state := .error }
      else pure { request with
        flags := parser.beginMessage.flags
        requestId := parser.messageHeader.requestId
        state := .paramOrStdin }
    | .paramOrStdin =>
      if type = typeParams then
        if empty then pure { request with state := .stdin } else request.appendParam S parser
      else if type = typeStdin then
        if empty then pure { request with state := .param } else request.appendStdin S parser
      else pure { request with state := .error }
    | .param =>
      if type ≠ typeParams then pure { request with state := .error }
      else if empty then pure { request with state := .finished }
      else request.appendParam S parser
    | .stdin =>
      if type ≠ typeStdin then pure { request with state := .error }
      else if empty then pure { request with state := .finished }
      else request.appendStdin S parser
    | .finished => pure { request with state := .error }
    | .error => pure request

end Request

/-! ## The response -/

/-- `sl_fcgi_response`, without the pointers to arena and log. -/
structure Response where
  headers : SlHashtable
  stdout : SlString := emptyString
  deriving DecidableEq, Repr

/-- `sl_fcgi_response_init`. -/
def Response.init (headerHashtableSize : Nat) : Response := { headers := .init headerHashtableSize true }

/-- `sl_fcgi_response_append_header`; `false` is the return value `-1`. -/
def Response.appendHeader (S : Setting) (response : Response) (name value : Nat) : Code (Bool × Response) := do
  let (appended, headers) ← response.headers.set S name value
  pure (appended, { response with headers })

/-- `sl_fcgi_response_append_output`; `none` is the return value `-1`. -/
def Response.appendOutput (S : Setting) (response : Response) (output : Source) : Code (Option Response) := do
  let stdout ← appendWithBuffer S response.stdout output
  pure (stdout.map fun stdout => { response with stdout })

/-- One pass of the inner loop of `sl_fcgi_response_process`; `false` is a refused allocation. -/
def headerPass (S : Setting) (output node : Nat) : Code (Prog.Flow Nat Bool) :=
  if node = 0 then pure (.done true)
  else do
    let key ← load64 S node 16
    let value ← load64 S node 24
    let header ← format S headerFormat [.pointer key, .pointer value]
    if header = 0 then pure (.done false)
    else
      let string ← loadString S header
      let appended ← appendTo S output (.ofString string)
      if appended then
        let next ← load64 S node 0
        pure (.next next)
      else
        pure (.done false)

/-- Its outer loop. -/
def headerChains (S : Setting) (buckets output : Nat) : List Nat → Code Bool
  | [] => pure true
  | n :: rest => do
    let bucket ← load64 S buckets (8 * n)
    let complete ← Machine.whileLoop (headerPass S output) S.fuel bucket
    if complete then headerChains S buckets output rest else pure false

/-- `sl_fcgi_response_process`. -/
def Response.process (S : Setting) (response : Response) : Code Nat := do
  let output ← allocate S .string sizeofString
  if output = 0 then pure 0
  else
    storeString S output emptyString
    let complete ← headerChains S response.headers.buckets output (List.range response.headers.size)
    if complete then
      let ended ← appendTo S output (.literal (octetsOf "\r\n"))
      if ended then
        let appended ← appendTo S output (.ofString response.stdout)
        pure (if appended then output else 0)
      else
        pure 0
    else
      pure 0

/-- `sl_main_request_send_response`; `false` is the return value `-1`. -/
def sendResponse (S : Setting) (request : Request) (buffer length : Nat) : Code Bool := do
  let stdoutHeader : MsgHeader :=
    { version := version1, type := typeStdout, requestId := request.requestId, contentLength := length }
  let emptyStdoutHeader : MsgHeader := { version := version1, type := typeStdout, requestId := request.requestId }
  let endHeader : MsgHeader :=
    { version := version1, type := typeEndRequest, requestId := request.requestId, contentLength := sizeofMsgEnd }
  let endMessage : List UInt8 := List.replicate sizeofMsgEnd 0
  let octets ← load S buffer 0 length
  match ← writev S [headerOctets stdoutHeader, octets, headerOctets emptyStdoutHeader, headerOctets endHeader, endMessage] with
  | none => pure false
  | some bytesSent =>
    logWriteFormat S sentFormat [.number (UInt64.ofNat bytesSent)]
    pure true

/-- `sl_main_request_execute`; `false` is the return value `-1`. -/
def requestExecute (S : Setting) (request : Request) : Code Bool := do
  let headerName := S.frame + 8
  let valueName := S.frame + 32
  let (appended, response) ← (Response.init headersPreallocate).appendHeader S headerName valueName
  if appended then
    match ← response.appendOutput S (.literal (octetsOf "OK\n")) with
    | none => pure false
    | some response =>
      let rawResponse ← response.process S
      if rawResponse = 0 then pure false
      else
        let string ← loadString S rawResponse
        sendResponse S request string.buffer (string.length % 2 ^ 16)
  else
    pure false

/-! ## What they keep -/

variable {S : Setting} {Γ Γ' : Typing} {w w' : World}

/-- **The invariant** of a request. -/
structure RequestOk (request : Request) (Γ : Typing) (w : World) : Prop where
  table : TableOk Γ request.parameters
  stdin : StringOk Γ w request.stdin.allocated request.stdin.length request.stdin.buffer

theorem RequestOk.onward {request : Request} (h : RequestOk request Γ w) (onward : Onward Γ w Γ' w') : RequestOk request Γ' w' :=
  ⟨h.table.leads onward.leads, h.stdin.mono onward.leads onward.written⟩

theorem stringOk_empty (Γ : Typing) (w : World) : StringOk Γ w 0 0 0 :=
  ⟨by decide, fun _ low high => absurd high (by omega), Or.inl rfl⟩

theorem requestOk_init {size : Nat} (positive : 0 < Arena.pow2Size size) (Γ : Typing) (w : World) : RequestOk (.init size) Γ w :=
  ⟨SlHashtable.tableOk_init positive Γ true, stringOk_empty Γ w⟩

namespace Keeps

/-- All of a closed parameter was written. -/
theorem stringOfParam (sound : S.Sound) (good : Good S Γ w) {a : Nat} (here : Γ a = some .param) {fields : Nat × Nat}
    (which : fields = Parser.nameFields ∨ fields = Parser.valueFields) :
    Keeps S Γ w (Request.stringOfParam S a fields) fun string Γ' _ => OrNull Γ'.IsString string := by
  obtain ⟨filled, -, name, value⟩ := good.holds a _ here
  have data : ∀ offset, offset + 8 ≤ 32 → Reads w (load64 S a offset) fun x => x = w.word (a + offset) :=
    fun offset less => .load64 (filled.part less)
  have length : ∀ offset, offset + 4 ≤ 32 → Reads w (load32 S a offset) fun x => x = w.half (a + offset) :=
    fun offset less => .load32 (filled.part less)
  rcases which with rfl | rfl
  · apply Leaves.read (data 16 (by decide))
    rintro _ rfl
    apply Leaves.read (length 8 (by decide))
    rintro _ rfl
    apply (@createFromBuffer S Γ w sound good (.memory _ _) name _).mono
    exact fun _ _ _ _ made => made.imp id And.left
  · apply Leaves.read (data 24 (by decide))
    rintro _ rfl
    apply Leaves.read (length 12 (by decide))
    rintro _ rfl
    apply (@createFromBuffer S Γ w sound good (.memory _ _) value _).mono
    exact fun _ _ _ _ made => made.imp id And.left

/-- The loop over the parameters, all of which are closed. -/
structure Appending (r : Nat × SlHashtable) (Γ : Typing) (w : World) : Prop where
  none : NoneOpen Γ
  param : OrNull Γ.IsParam r.1
  table : TableOk Γ r.2

theorem appendPass (sound : S.Sound) (r : Nat × SlHashtable) (Γ : Typing) (w : World) (good : Good S Γ w) (appending : Appending r Γ w) :
    Keeps S Γ w (Request.appendPass S r) (Pass Appending fun t Γ _ => TableOk Γ t) := by
  obtain ⟨parameter, t⟩ := r
  obtain ⟨none, param, table⟩ := appending
  unfold Request.appendPass
  dsimp only at param table ⊢
  split
  · exact .pure good table
  · rename_i valid
    have here : Γ parameter = some .param :=
      (param.resolve_left valid).resolve_right fun ⟨_, _, _, _, opened⟩ => none _ _ _ _ _ opened
    apply (stringOfParam sound good here (Or.inl rfl)).bind
    intro name Γ₁ w₁ good₁ later₁ named
    apply (stringOfParam sound good₁ (later₁.kept _ _ here) (Or.inr rfl)).bind
    intro value Γ₂ w₂ good₂ later₂ valued
    have table₂ := (table.leads later₁.leads).leads later₂.leads
    apply (SlHashtable.keeps_set sound good₂ table₂ (named.mono later₂.leads.string) valued).bind
    rintro ⟨_, t'⟩ Γ₃ w₃ good₃ later₃ table₃
    have later := (later₁.trans later₂).trans later₃
    obtain ⟨filled, next, -⟩ := good₃.holds parameter _ (later.kept _ _ here)
    apply Leaves.read (Reads.load64 (filled.part (by decide : 0 + 8 ≤ 32)))
    rintro _ rfl
    exact .pure good₃ ⟨none.later later, next, table₃⟩

theorem appendParam (sound : S.Sound) (good : Good S Γ w) {request : Request} (fine : RequestOk request Γ w) {parser : Parser}
    (none : NoneOpen Γ) (first : OrNull Γ.IsParam parser.firstParam) :
    Keeps S Γ w (request.appendParam S parser) RequestOk := by
  apply (Leaves.whileLoop (appendPass sound) S.fuel _ Γ w good ⟨none, first, fine.table⟩).bind
  intro parameters Γ₁ w₁ good₁ later₁ table
  exact .pure good₁ ⟨table, fine.stdin.mono later₁.leads later₁.written⟩

theorem appendStdin (sound : S.Sound) (good : Good S Γ w) {request : Request} (fine : RequestOk request Γ w) {parser : Parser}
    (complete : Filled w parser.stdinData parser.stdinLength) : Keeps S Γ w (request.appendStdin S parser) RequestOk := by
  unfold Request.appendStdin
  split
  · exact .pure good fine
  · apply (@appendWithBuffer S Γ w sound good _ fine.stdin (.memory _ _) complete).bind
    intro result Γ₁ w₁ good₁ later₁ appended
    cases result with
    | none => exact .pure good₁ ⟨fine.table.leads later₁.leads, fine.stdin.mono later₁.leads later₁.written⟩
    | some stdin => exact .pure good₁ ⟨fine.table.leads later₁.leads, (appended stdin rfl).1⟩

/-- **`sl_fcgi_request_process`.** -/
theorem process (sound : S.Sound) (good : Good S Γ w) {request : Request} (fine : RequestOk request Γ w) {parser : Parser}
    (ok : ParserOk parser Γ w) : Keeps S Γ w (request.process S parser) RequestOk := by
  have same : ∀ {request' : Request}, request'.parameters = request.parameters → request'.stdin = request.stdin →
      Keeps S Γ w (Pure.pure request') RequestOk := by
    intro request' table stdin
    exact .pure good ⟨table ▸ fine.table, stdin ▸ fine.stdin⟩
  unfold Request.process
  dsimp only
  split
  · exact same rfl rfl
  · rename_i finished
    have finished : parser.state = .finished := not_not.mp finished
    have none : NoneOpen Γ := ok.inPhase (congrArg phase finished)
    have complete : Filled w parser.stdinData parser.stdinLength := ok.inStage (congrArg stage finished)
    have params := appendParam sound good fine none ok.first
    have data := appendStdin sound good fine complete
    split
    · split_ifs <;> exact same rfl rfl
    · split_ifs
      · exact same rfl rfl
      · exact params
      · exact same rfl rfl
      · exact data
      · exact same rfl rfl
    · split_ifs
      · exact same rfl rfl
      · exact same rfl rfl
      · exact params
    · split_ifs
      · exact same rfl rfl
      · exact same rfl rfl
      · exact data
    · exact same rfl rfl
    · exact same rfl rfl

/-! The response -/

/-- The output of a response, and the node that it is at. -/
def Responding (output : Nat) (node : Nat) (Γ : Typing) (_ : World) : Prop := Γ.IsString output ∧ OrNull Γ.IsBucket node

theorem headerPass (sound : S.Sound) {output : Nat} (node : Nat) (Γ : Typing) (w : World) (good : Good S Γ w)
    (responding : Responding output node Γ w) :
    Keeps S Γ w (headerPass S output node) (Pass (Responding output) fun _ Γ _ => Γ.IsString output) := by
  obtain ⟨target, fine⟩ := responding
  unfold Leftover.headerPass
  split
  · exact .pure good target
  · rename_i valid
    have here := fine.resolve_left valid
    apply Leaves.read (reads_key good here)
    intro key keyed
    apply Leaves.read (reads_value good here)
    intro value valued
    have readable : Readable Γ w [.pointer key, .pointer value] := by
      simp only [Readable, List.forall_mem_cons, List.not_mem_nil, false_implies, implies_true, and_true]
      exact ⟨Or.inr keyed, valued⟩
    apply (format sound good (by decide) readable).bind
    intro header Γ₁ w₁ good₁ later₁ made
    split
    · exact .pure good₁ (later₁.leads.string target)
    · rename_i some
      apply Leaves.read (reads_loadString good₁ (made.resolve_left some))
      rintro string ⟨ok, -⟩
      apply (@appendTo S Γ₁ w₁ output sound good₁ (later₁.leads.string target) (.ofString string) ok.filled).bind
      intro appended Γ₂ w₂ good₂ later₂ _
      have later := later₁.trans later₂
      split
      · apply Leaves.read (reads_next good₂ (later.leads.bucket here))
        intro next fine'
        exact .pure good₂ ⟨later.leads.string target, fine'⟩
      · exact .pure good₂ (later.leads.string target)

/-- All headers are formatted. -/
theorem headerChains (sound : S.Sound) {buckets size output : Nat} :
    ∀ (slots : List Nat) (Γ : Typing) (w : World), (∀ n ∈ slots, n < size) → Good S Γ w → (Γ buckets = some (.slots size)) →
      Γ.IsString output → Keeps S Γ w (headerChains S buckets output slots) fun _ Γ' _ => Γ'.IsString output
  | [], Γ, w, _, good, _, target => .pure good target
  | n :: rest, Γ, w, inside, good, array, target => by
    unfold Leftover.headerChains
    apply Leaves.read (reads_slot good array (inside n List.mem_cons_self))
    intro bucket fine
    apply (Leaves.whileLoop (headerPass sound) S.fuel bucket Γ w good ⟨target, fine⟩).bind
    intro complete Γ₁ w₁ good₁ later₁ target₁
    split
    · exact headerChains sound rest Γ₁ w₁ (fun m there => inside m (List.mem_cons_of_mem _ there)) good₁ (later₁.kept _ _ array) target₁
    · exact .pure good₁ target₁

end Keeps

/-- **The invariant** of a response. -/
structure ResponseOk (response : Response) (Γ : Typing) (w : World) : Prop where
  table : TableOk Γ response.headers
  stdout : StringOk Γ w response.stdout.allocated response.stdout.length response.stdout.buffer

namespace Response

theorem ok_init {size : Nat} (positive : 0 < Arena.pow2Size size) (Γ : Typing) (w : World) : ResponseOk (init size) Γ w :=
  ⟨SlHashtable.tableOk_init positive Γ true, stringOk_empty Γ w⟩

variable {response : Response}

theorem keeps_appendHeader (sound : S.Sound) (good : Good S Γ w) (fine : ResponseOk response Γ w) {name value : Nat}
    (named : Γ.IsString name) (valued : Γ.IsString value) :
    Keeps S Γ w (response.appendHeader S name value) fun r => ResponseOk r.2 := by
  unfold appendHeader
  apply (SlHashtable.keeps_set sound good fine.table (Or.inr named) (Or.inr valued)).bind
  rintro ⟨appended, headers⟩ Γ₁ w₁ good₁ later₁ table
  exact .pure good₁ ⟨table, fine.stdout.mono later₁.leads later₁.written⟩

theorem keeps_appendOutput (sound : S.Sound) (good : Good S Γ w) (fine : ResponseOk response Γ w) (octets : List UInt8) :
    Keeps S Γ w (response.appendOutput S (.literal octets)) fun result Γ' w' => ∀ response', result = some response' →
      ResponseOk response' Γ' w' := by
  unfold appendOutput
  apply (@Keeps.appendWithBuffer S Γ w sound good _ fine.stdout (.literal octets) trivial).bind
  intro result Γ₁ w₁ good₁ later₁ appended
  refine .pure good₁ fun response' same => ?_
  obtain ⟨stdout, rfl, rfl⟩ := Option.map_eq_some_iff.mp same
  exact ⟨fine.table.leads later₁.leads, (appended stdout rfl).1⟩

/-- **`sl_fcgi_response_process`** yields a string, or `NULL`. -/
theorem keeps_process (sound : S.Sound) (good : Good S Γ w) (fine : ResponseOk response Γ w) :
    Keeps S Γ w (response.process S) fun output Γ' _ => OrNull Γ'.IsString output := by
  unfold process
  apply (Keeps.allocate sound good (Or.inl (by decide))).bind
  rintro output Γ₁ w₁ good₁ later₁ ⟨rfl, null | ⟨raw, -⟩⟩
  · rw [if_pos null]
    exact .pure good₁ (Or.inl rfl)
  rw [if_neg raw.valid]
  apply (@Keeps.newString S Γ₁ w₁ output good₁ raw emptyString (stringOk_empty Γ₁ w₁)).bind
  rintro _ Γ₂ w₂ good₂ later₂ ⟨target, -⟩
  have fine₂ : ResponseOk response Γ₂ w₂ :=
    ⟨(fine.table.leads later₁.leads).leads later₂.leads, fine.stdout.mono (later₁.trans later₂).leads (later₁.trans later₂).written⟩
  have chains : Keeps S Γ₂ w₂ (headerChains S response.headers.buckets output (List.range response.headers.size))
      fun _ Γ' _ => Γ'.IsString output := by
    rcases fine₂.table.buckets with none | array
    · rw [none]
      exact .pure good₂ target
    · exact Keeps.headerChains sound _ Γ₂ w₂ (fun n there => List.mem_range.mp there) good₂ array target
  apply chains.bind
  intro complete Γ₃ w₃ good₃ later₃ target₃
  split
  · apply (@Keeps.appendTo S Γ₃ w₃ output sound good₃ target₃ (.literal _) trivial).bind
    intro ended Γ₄ w₄ good₄ later₄ _
    have target₄ := later₄.leads.string target₃
    split
    · have filled := (later₃.trans later₄).filled fine₂.stdout.filled
      apply (@Keeps.appendTo S Γ₄ w₄ output sound good₄ target₄ (.ofString _) filled).bind
      intro appended Γ₅ w₅ good₅ later₅ _
      refine .pure good₅ ?_
      split
      · exact Or.inr (later₅.leads.string target₄)
      · exact Or.inl rfl
    · exact .pure good₄ (Or.inl rfl)
  · exact .pure good₃ (Or.inl rfl)

end Response

namespace Keeps

/-- The octets of the response were written before they are sent. -/
theorem sendResponse (sound : S.Sound) (good : Good S Γ w) (request : Request) {buffer length : Nat} (filled : Filled w buffer length) :
    Keeps S Γ w (sendResponse S request buffer length) fun _ _ _ => True := by
  unfold Leftover.sendResponse
  apply Leaves.read (Reads.octets filled)
  intro octets _
  apply (writev good _).bind
  intro sent Γ₁ w₁ good₁ _ _
  cases sent with
  | none => exact .pure good₁ trivial
  | some bytesSent =>
    have readable : Readable Γ₁ w₁ [.number (UInt64.ofNat bytesSent)] := by
      simp [Readable, Argument.Ok]
    apply (logWriteFormat sound good₁ (by decide) readable).bind
    intro _ Γ₂ w₂ good₂ _ _
    exact .pure good₂ trivial

/-- **`sl_main_request_execute`**, with its locals. -/
theorem requestExecute (sound : S.Sound) (good : Good S Γ w) (request : Request) (headerName : Γ.IsString (S.frame + 8))
    (valueName : Γ.IsString (S.frame + 32)) : Keeps S Γ w (requestExecute S request) fun _ _ _ => True := by
  unfold Leftover.requestExecute
  apply (Response.keeps_appendHeader sound good (Response.ok_init (by decide) Γ w) headerName valueName).bind
  rintro ⟨appended, response⟩ Γ₁ w₁ good₁ _ fine
  dsimp only at fine ⊢
  split
  · apply (Response.keeps_appendOutput sound good₁ fine _).bind
    intro result Γ₂ w₂ good₂ _ appended
    cases result with
    | none => exact .pure good₂ trivial
    | some response =>
      apply (Response.keeps_process sound good₂ (appended response rfl)).bind
      intro rawResponse Γ₃ w₃ good₃ _ made
      split
      · exact .pure good₃ trivial
      · rename_i valid
        apply Leaves.read (reads_loadString good₃ (made.resolve_left valid))
        rintro string ⟨ok, -⟩
        exact sendResponse sound good₃ request (ok.filled.front (Nat.mod_le _ _))
  · exact .pure good₁ trivial

end Keeps

end Cpptrw.Leftover
