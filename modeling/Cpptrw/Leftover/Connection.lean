import Cpptrw.Leftover.Request

/-!
# A connection in the arena (`sl_net.c`, `main.c`)

A connection slot is initialised for a client, and its octets are handled. What
an earlier client left is in the memory and in the blocks of the arena; what
`sl_net_init_connection` does not keep of the slot is arbitrary too. In the end
the connection is looked at, with its table and its data read out of memory.
-/

namespace Cpptrw.Leftover

open Lib Lib.Prog Arena Fcgi
open Text (octetsOf)
open Main (paramsPreallocate)

/-- `sl_net_connection`, without socket, address, log and `is_busy`. The arena is in the world. -/
structure Connection where
  parser : Parser
  request : Request
  deriving DecidableEq, Repr

/-! ## The slot -/

/-- The arena is made, or rewound when it exists. -/
def restart (arena : SlArena) (heap : Heap) : Option (SlArena × Heap) :=
  if arena.first = none then some (Arena.init arenaPreallocate, heap)
  else (Arena.rewind arena heap).map fun heap => (arena, heap)

/-- `sl_net_init_connection`. The histories begin here. -/
def initConnection (slot : Connection) : Code Connection := fun w =>
  match restart w.arena w.heap with
  | none => (.error .diverged, w)
  | some (arena, heap) =>
    (.ok { slot with parser := {}, request := .init paramsPreallocate }, { memory := w.memory, arena, heap })

/-- What `sl_main_request_execute` has on its stack, and the literals of it. They are the same in
every call, and are laid out once. -/
def layLocals (S : Setting) : Code Unit := do
  store S (S.frame + 56) 0 (octetsOf "Content-Type" ++ [0])
  store S (S.frame + 72) 0 (octetsOf "text/plain" ++ [0])
  storeString S (S.frame + 8) ⟨12, 12, S.frame + 56⟩
  storeString S (S.frame + 32) ⟨10, 10, S.frame + 72⟩

/-! ## A buffer -/

/-- The state of the loop of `sl_main_parse_buffer`. -/
structure Progress where
  connection : Connection
  bytesParsed : Nat := 0
  previous : Nat := 0

/-- The loop of `sl_main_parse_buffer` behind the call of the parser: whether it
goes on, or is left by a `break`. -/
def handleRecord (S : Setting) (connection : Connection) : Code (Flow Connection Connection) :=
  if connection.parser.state = .error then pure (.done connection)
  else if connection.parser.state = .finished then do
    let request ← connection.request.process S connection.parser
    if request.state = .error then pure (.done { connection with request })
    else if request.state = .finished then
      let _ ← requestExecute S request
      pure (.done { connection with request })
    else pure (.next { connection with request, parser := {} })
  else pure (.next connection)

/-- One pass through the loop of `sl_main_parse_buffer`. -/
def parsePass (S : Setting) (buffer : List UInt8) (progress : Progress) : Code (Flow Progress Connection) :=
  if progress.bytesParsed < buffer.length then do
    let (parser, parsed) ← progress.connection.parser.parse S (buffer.drop progress.bytesParsed)
    let bytesParsed := progress.bytesParsed + parsed
    logWriteFormat S parsedFormat [.number (UInt64.ofNat (bytesParsed - progress.previous))]
    match ← handleRecord S { progress.connection with parser } with
    | .done connection => pure (.done connection)
    | .next connection => pure (.next { connection, bytesParsed, previous := bytesParsed })
  else pure (.done progress.connection)

/-- `sl_main_parse_buffer`. At most two passes are made for each octet, and a
last look at the condition. -/
def parseBuffer (S : Setting) (connection : Connection) (buffer : List UInt8) : Code Connection :=
  Machine.whileLoop (parsePass S buffer) (2 * buffer.length + 1) { connection }

/-- A sequence of calls of `sl_main_parse_buffer`. -/
def parseBuffers (S : Setting) : Connection → List (List UInt8) → Code Connection
  | connection, [] => pure connection
  | connection, buffer :: buffers => do
    let connection ← parseBuffer S connection buffer
    parseBuffers S connection buffers

/-! ## Looking at a connection -/

/-- The octets of a string, if there is one. -/
def observeString (S : Setting) (pointer : Nat) : Code (Option (List UInt8)) :=
  if pointer = 0 then pure none
  else do
    let string ← loadString S pointer
    let octets ← load S string.buffer 0 string.length
    pure (some octets)

/-- A node of the table with its octets. -/
structure Entry where
  hash : Nat
  key : Option (List UInt8)
  value : Option (List UInt8)
  deriving DecidableEq, Repr

def observePass (S : Setting) : Nat × List Entry → Code (Flow (Nat × List Entry) (List Entry))
  | (node, seen) =>
    if node = 0 then pure (.done seen)
    else do
      let hash ← load64 S node 8
      let key ← load64 S node 16
      let key ← observeString S key
      let value ← load64 S node 24
      let value ← observeString S value
      let next ← load64 S node 0
      pure (.next (next, seen ++ [⟨hash, key, value⟩]))

def observeChains (S : Setting) (buckets : Nat) : List Nat → Code (List (List Entry))
  | [] => pure []
  | n :: rest => do
    let bucket ← load64 S buckets (8 * n)
    let chain ← Machine.whileLoop (observePass S) S.fuel (bucket, [])
    let chains ← observeChains S buckets rest
    pure (chain :: chains)

/-- A connection, its parameter table and its data. -/
structure Observed where
  connection : Connection
  parameters : List (List Entry)
  stdin : List UInt8
  deriving DecidableEq, Repr

def observe (S : Setting) (connection : Connection) : Code Observed := do
  let parameters := connection.request.parameters
  let chains ← observeChains S parameters.buckets (List.range parameters.size)
  let stdin ← load S connection.request.stdin.buffer 0 connection.request.stdin.length
  pure ⟨connection, chains, stdin⟩

/-- A slot is initialised, buffers are handled, and the connection is looked at. -/
def session (S : Setting) (slot : Connection) (buffers : List (List UInt8)) : Code Observed := do
  let connection ← initConnection slot
  layLocals S
  let connection ← parseBuffers S connection buffers
  observe S connection

/-! ## What they keep -/

variable {S : Setting} {Γ Γ' : Typing} {w w' v : World}

/-- **The invariant** of a connection. -/
structure ConnectionOk (S : Setting) (connection : Connection) (Γ : Typing) (w : World) : Prop where
  parser : ParserOk connection.parser Γ w
  request : RequestOk connection.request Γ w
  headerName : Γ.IsString (S.frame + 8)
  valueName : Γ.IsString (S.frame + 32)

theorem parserOk_init (none : NoneOpen Γ) (w : World) : ParserOk {} Γ w :=
  ⟨Or.inl rfl, Or.inl rfl, none, ⟨rfl, rfl⟩, by decide, by decide⟩

namespace Parses

theorem handleRecord (sound : S.Sound) (good : Good S Γ w) {connection : Connection} (ok : ConnectionOk S connection Γ w) :
    Parses S Γ w (handleRecord S connection) (Pass (ConnectionOk S) (ConnectionOk S)) := by
  unfold Leftover.handleRecord
  split
  · exact .pure good ok
  · split
    · rename_i finished
      have none : NoneOpen Γ := ok.parser.inPhase (congrArg phase finished)
      apply (Keeps.process sound good ok.request ok.parser).parses
      intro request Γ₁ w₁ good₁ later₁ fine
      have headerName := later₁.leads.string ok.headerName
      have valueName := later₁.leads.string ok.valueName
      have parser := ok.parser.later later₁
      split
      · exact .pure good₁ ⟨parser, fine, headerName, valueName⟩
      · split
        · apply (Keeps.requestExecute sound good₁ request headerName valueName).parses
          intro _ Γ₂ w₂ good₂ later₂ _
          have fine₂ := fine.onward ⟨later₂.leads, later₂.written⟩
          exact .pure good₂ ⟨parser.later later₂, fine₂, later₂.leads.string headerName, later₂.leads.string valueName⟩
        · exact .pure good₁ ⟨parserOk_init (none.later later₁) w₁, fine, headerName, valueName⟩
    · exact .pure good ok

theorem parsePass (sound : S.Sound) (buffer : List UInt8) (progress : Progress) (Γ : Typing) (w : World) (good : Good S Γ w)
    (ok : ConnectionOk S progress.connection Γ w) :
    Parses S Γ w (parsePass S buffer progress) (Pass (fun progress => ConnectionOk S progress.connection) (ConnectionOk S)) := by
  unfold Leftover.parsePass
  split
  · apply (parse sound _ _ Γ w good ok.parser).bind
    rintro ⟨parser, parsed⟩ Γ₁ w₁ good₁ onward₁ parserOk
    have readable : ∀ n, Readable Γ₁ w₁ [.number n] := by
      intro n
      simp [Readable, Argument.Ok]
    apply (Keeps.logWriteFormat sound good₁ (by decide) (readable _)).parses
    intro _ Γ₂ w₂ good₂ later₂ _
    have onward := Frame.trans onward₁ ⟨later₂.leads, later₂.written⟩
    have ok₂ : ConnectionOk S { progress.connection with parser } Γ₂ w₂ :=
      ⟨parserOk.later later₂, ok.request.onward onward, onward.leads.string ok.headerName, onward.leads.string ok.valueName⟩
    apply (handleRecord sound good₂ ok₂).bind
    intro r Γ₃ w₃ good₃ _ after
    cases r with
    | done connection => exact .pure good₃ after
    | next connection => exact .pure good₃ after
  · exact .pure good ok

theorem parseBuffer (sound : S.Sound) (good : Good S Γ w) {connection : Connection} (ok : ConnectionOk S connection Γ w)
    (buffer : List UInt8) : Parses S Γ w (parseBuffer S connection buffer) (ConnectionOk S) :=
  Leaves.whileLoop (parsePass sound buffer) _ _ Γ w good ok

theorem parseBuffers (sound : S.Sound) :
    ∀ (buffers : List (List UInt8)) (connection : Connection) (Γ : Typing) (w : World), Good S Γ w → ConnectionOk S connection Γ w →
      Parses S Γ w (parseBuffers S connection buffers) (ConnectionOk S)
  | [], connection, Γ, w, good, ok => .pure good ok
  | buffer :: buffers, connection, Γ, w, good, ok => by
    apply (parseBuffer sound good ok buffer).bind
    intro connection' Γ₁ w₁ good₁ _ ok₁
    exact parseBuffers sound buffers connection' Γ₁ w₁ good₁ ok₁

end Parses

/-- The locals are where nothing is yet. -/
theorem Keeps.layLocals (sound : S.Sound) (good : Good S Γ w) (untyped : ∀ region ∈ locals S.frame, Γ region.start = none) :
    Keeps S Γ w (layLocals S) fun _ Γ' _ => Γ'.IsString (S.frame + 8) ∧ Γ'.IsString (S.frame + 32) := by
  have raw : ∀ offset size, ⟨S.frame + offset, size⟩ ∈ locals S.frame → Raw S Γ w (S.frame + offset) size :=
    fun offset size there => good.raw_local sound.frame there (untyped _ there)
  have other : ∀ {offset offset' : Nat}, offset ≠ offset' → S.frame + offset ≠ S.frame + offset' := by
    intro offset offset' different
    omega
  have raw₈ := raw 8 24 (by simp [locals])
  have raw₃₂ := raw 32 24 (by simp [locals])
  have raw₅₆ := raw 56 13 (by simp [locals])
  have raw₇₂ := raw 72 11 (by simp [locals])
  unfold Leftover.layLocals
  apply (newBuffer good raw₅₆ _).bind
  rintro _ Γ₁ w₁ good₁ later₁ ⟨header, headerChars, stays⟩
  have raw₈ := stays _ _ (other (by decide)) raw₈
  have raw₃₂ := stays _ _ (other (by decide)) raw₃₂
  have raw₇₂ := stays _ _ (other (by decide)) raw₇₂
  apply (newBuffer good₁ raw₇₂ _).bind
  rintro _ Γ₂ w₂ good₂ later₂ ⟨value, valueChars, stays⟩
  have raw₈ := stays _ _ (other (by decide)) raw₈
  have raw₃₂ := stays _ _ (other (by decide)) raw₃₂
  have headerOk : StringOk Γ₂ w₂ 12 12 (S.frame + 56) :=
    ⟨raw₅₆.small, (later₂.filled header).front (by decide), Or.inr (later₂.leads.chars (headerChars (by decide)))⟩
  apply (@newString S Γ₂ w₂ _ good₂ raw₈ ⟨_, _, _⟩ headerOk).bind
  rintro _ Γ₃ w₃ good₃ later₃ ⟨headerName, -, stays⟩
  have raw₃₂ := stays _ _ (other (by decide)) raw₃₂
  have valueOk : StringOk Γ₃ w₃ 10 10 (S.frame + 72) :=
    ⟨raw₇₂.small, (later₃.filled value).front (by decide), Or.inr (later₃.leads.chars (valueChars (by decide)))⟩
  apply (@newString S Γ₃ w₃ _ good₃ raw₃₂ ⟨_, _, _⟩ valueOk).mono
  rintro _ Γ₄ w₄ later₄ ⟨valueName, -, -⟩
  exact ⟨later₄.leads.string headerName, valueName⟩

/-! What is looked at was written -/

theorem reads_observeString (good : Good S Γ w) {pointer : Nat} (here : OrNull Γ.IsString pointer) :
    Reads w (observeString S pointer) fun _ => True := by
  unfold observeString
  split
  · exact .pure trivial
  · rename_i valid
    apply (reads_loadString good (here.resolve_left valid)).bind
    rintro string ⟨ok, -⟩
    apply (Reads.octets ok.filled).bind
    intro octets _
    exact .pure trivial

theorem reads_observeChain (good : Good S Γ w) {bucket : Nat} (fine : OrNull Γ.IsBucket bucket) :
    Reads w (Machine.whileLoop (observePass S) S.fuel (bucket, [])) fun _ => True := by
  apply @Reads.whileLoop _ _ _ _ _ (fun r => OrNull Γ.IsBucket r.1) _ S.fuel (bucket, []) fine
  rintro ⟨node, seen⟩ fine
  unfold observePass
  dsimp only at fine ⊢
  split
  · exact .pure trivial
  · rename_i valid
    have here := fine.resolve_left valid
    apply (reads_hash good here).bind
    intro hash _
    apply (reads_key good here).bind
    intro key keyed
    apply (reads_observeString good (Or.inr keyed)).bind
    intro keyOctets _
    apply (reads_value good here).bind
    intro value valued
    apply (reads_observeString good valued).bind
    intro valueOctets _
    apply (reads_next good here).bind
    intro next fine'
    exact .pure fine'

theorem reads_observeChains (good : Good S Γ w) {buckets size : Nat} (array : Γ buckets = some (.slots size)) :
    ∀ slots : List Nat, (∀ n ∈ slots, n < size) → Reads w (observeChains S buckets slots) fun _ => True
  | [], _ => .pure trivial
  | n :: rest, inside => by
    unfold observeChains
    apply (reads_slot good array (inside n List.mem_cons_self)).bind
    intro bucket fine
    apply (reads_observeChain good fine).bind
    intro chain _
    apply (reads_observeChains good array rest fun m there => inside m (List.mem_cons_of_mem _ there)).bind
    intro chains _
    exact .pure trivial

theorem reads_observe (good : Good S Γ w) {connection : Connection} (ok : ConnectionOk S connection Γ w) :
    Reads w (observe S connection) fun _ => True := by
  have chains : Reads w (observeChains S connection.request.parameters.buckets (List.range connection.request.parameters.size))
      fun _ => True := by
    rcases ok.request.table.buckets with none | array
    · rw [none]
      exact .pure trivial
    · exact reads_observeChains good array _ fun n there => List.mem_range.mp there
  unfold observe
  apply chains.bind
  intro chains _
  apply (Reads.octets ok.request.stdin.filled).bind
  intro stdin _
  exact .pure trivial

end Cpptrw.Leftover
