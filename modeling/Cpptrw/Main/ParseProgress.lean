import Cpptrw.Main.Connection
import Cpptrw.Fcgi.ParserProgress
import Cpptrw.Fcgi.LostParameters

/-!
# The parse loop ends

A pass of `sl_main_parse_buffer` takes octets, or it has found the parser at
the end of a record and starts a new one; a fresh parser takes an octet. So the
octets that are left, and one pass more while the parser is not fresh, bound
the passes. No allocation has to succeed for this. The one way in which the
loop does not come to its end is undefined behaviour of the request, which
hashes a name that is `NULL`; `PassMet` is the condition under which a pass does
not get there.
-/

namespace Cpptrw.Main

open Lib Lib.Prog Text Fcgi Hashtable

variable {P : Platform}

/-! ## Reachable connections -/

/-- `sl_net_init_connection` has been called. -/
def Opened (connection : Connection) : Prop := connection.parser = .init ∧ connection.request = .init paramsPreallocate

/-- A buffer is parsed, or the connection is initialised again. -/
inductive Handled (P : Platform) : Connection → Connection → Prop
  | parsed {connection connection' : Connection} (buffer : List UInt8) {s s' : P.State}
      (run : parseBuffer connection buffer s = .ok (connection', s')) : Handled P connection connection'
  | initialised {connection connection' : Connection} {s s' : P.State}
      (run : initConnection connection s = .ok (connection', s')) : Handled P connection connection'

abbrev ReachedConnection (P : Platform) : Connection → Prop := Reached Opened (Handled P)

/-- What is known of a connection wherever a pass begins. -/
structure Usable (P : Platform) (connection : Connection) : Prop where
  parser : ∃ seen, At P seen connection.parser
  request : Tabled connection.request

theorem Opened.usable {connection : Connection} (h : Opened connection) : Usable P connection where
  parser := by
    rw [h.1]
    exact ⟨[], .header (show 0 < 8 by decide)⟩
  request := by
    rw [h.2]
    exact ⟨[], .init (by decide) (by decide) true⟩

/-! ## One pass -/

/-- The passes that can still be made. -/
def passesLeft (buffer : List UInt8) (progress : Progress) : Nat :=
  if progress.bytesParsed < buffer.length then
    buffer.length - progress.bytesParsed + if progress.connection.parser.state = .version then 0 else 1
  else 0

/-- What a pass needs: no more octets were parsed than there are. -/
structure Within (P : Platform) (buffer : List UInt8) (progress : Progress) : Prop where
  usable : Usable P progress.connection
  bound : progress.bytesParsed ≤ buffer.length

/-- Behind the call of the parser: a new record begins, or the connection is as it was. -/
theorem confined_handleRecord {connection : Connection} (h : Usable P connection) :
    Confined (NullName P) (handleRecord connection : Prog P _) fun
      | .next connection' => Usable P connection' ∧
          (connection'.parser = .init ∨ ¬connection.parser.Settled ∧ connection'.parser = connection.parser)
      | .done connection' => Usable P connection' := by
  obtain ⟨seen, parsed⟩ := h.parser
  unfold handleRecord
  split
  · exact confined_pure h
  · rename_i fine
    split
    · rename_i finished
      refine (confined_process (parsed.decoded finished) h.request).bind fun request tabled => ?_
      dsimp only
      split
      · exact confined_pure ⟨h.parser, tabled⟩
      · split
        · refine (ensures_requestExecute request).confined.bind fun _ _ => ?_
          exact confined_pure ⟨h.parser, tabled⟩
        · refine confined_pure ⟨⟨⟨[], ?_⟩, tabled⟩, Or.inl rfl⟩
          exact .header (show 0 < 8 by decide)
    · rename_i unfinished
      refine confined_pure ⟨h, Or.inr ⟨?_, rfl⟩⟩
      rintro (finished | error)
      · exact unfinished finished
      · exact fine error

/-- A pass that makes no progress is the last one, or leaves a fresh parser. -/
theorem passesLeft_next {buffer : List UInt8} {progress progress' : Progress} {n : Nat}
    (more : progress.bytesParsed < buffer.length) (bytes : progress'.bytesParsed = progress.bytesParsed + n)
    (taken : progress.connection.parser.state = .version → 1 ≤ n)
    (fresh : progress.bytesParsed + n < buffer.length → progress'.connection.parser.state = .version) :
    passesLeft buffer progress' < passesLeft buffer progress := by
  rw [passesLeft, passesLeft, if_pos more, bytes]
  by_cases rest : progress.bytesParsed + n < buffer.length
  · rw [if_pos rest, if_pos (fresh rest)]
    split
    · rename_i start
      have := taken start
      omega
    · omega
  · rw [if_neg rest]
    omega

/-- **One pass** of the loop. -/
theorem confined_parsePass (buffer : List UInt8) (progress : Progress) (h : Within P buffer progress) :
    Confined (NullName P) (parsePass buffer progress : Prog P _)
      (Flow.Descends (Within P buffer) (passesLeft buffer) (Usable P) progress) := by
  obtain ⟨seen, parsed⟩ := h.usable.parser
  unfold parsePass
  split
  · rename_i more
    have some : buffer.drop progress.bytesParsed ≠ [] := List.ne_nil_of_length_pos (by rw [List.length_drop]; omega)
    have taken : Returns (progress.connection.parser.parse (buffer.drop progress.bytesParsed) : Prog P _) fun r =>
        progress.connection.parser.state = .version → 1 ≤ r.2 :=
      fun s r s' run fresh => Parser.returns_parse_version fresh some s r s' run
    refine ((parsed.ensures_parse _).and_returns taken).confined.bind fun r led => ?_
    obtain ⟨⟨bound, consumed, settled⟩, taken⟩ := led
    rw [List.length_drop] at bound settled
    refine (ensures_log (parsed_matching _)).confined.bind fun _ _ => ?_
    have usable : Usable P { progress.connection with parser := r.1 } := ⟨⟨_, consumed⟩, h.usable.request⟩
    refine (confined_handleRecord usable).bind fun flow led => ?_
    cases flow with
    | done connection => exact confined_pure led
    | next connection =>
      obtain ⟨usable, next⟩ := led
      refine confined_pure ⟨⟨usable, by dsimp only; omega⟩, passesLeft_next more rfl taken fun rest => ?_⟩
      rcases next with fresh | ⟨unsettled, -⟩
      · exact congrArg Parser.state fresh
      · exact absurd (settled (by omega)) unsettled
  · exact confined_pure h.usable

theorem passesLeft_start (connection : Connection) (buffer : List UInt8) :
    passesLeft buffer { connection } ≤ 2 * buffer.length := by
  unfold passesLeft
  split
  · rename_i some
    have least : 0 < buffer.length := some
    split
    · omega
    · omega
  · exact Nat.zero_le _

/-- The loop is left. -/
theorem confined_parseBuffer {connection : Connection} (h : Usable P connection) (buffer : List UInt8) :
    Confined (NullName P) (parseBuffer connection buffer : Prog P _) (Usable P) :=
  confined_whileLoop (Within P buffer) (passesLeft buffer) (confined_parsePass buffer) _ _ ⟨h, Nat.zero_le _⟩
    (Nat.lt_succ_of_le (passesLeft_start connection buffer))

theorem ReachedConnection.usable {connection : Connection} (h : ReachedConnection P connection) : Usable P connection := by
  refine h.invariant (fun connection opened => opened.usable) fun connection connection' usable handled => ?_
  cases handled with
  | parsed buffer run => exact (confined_parseBuffer usable buffer).returns _ _ _ run
  | initialised run =>
    cases run
    exact Opened.usable ⟨rfl, rfl⟩

/-! ## The names of a run -/

/-- What a pass hands to `sl_fcgi_request_process`. -/
def handed (buffer : List UInt8) (progress : Progress) : Prog P Parser :=
  progress.connection.parser.parse (buffer.drop progress.bytesParsed) >>= fun r =>
    logWriteFormat parsedFormat [.number (UInt64.ofNat (progress.bytesParsed + r.2 - progress.previous))] >>= fun _ => pure r.1

/-- When a pass hands over a finished record, the names that matter are met. -/
def PassMet (P : Platform) (buffer : List UInt8) (progress : Progress) (t : P.State) : Prop :=
  progress.bytesParsed < buffer.length → ∀ r t', handed buffer progress t = .ok (r, t') → r.state = .finished →
    NamesMet P progress.connection.request r t'

theorem yields_handleRecord_iff {connection : Connection} (h : Usable P connection) (t : P.State) :
    Yields (handleRecord connection : Prog P _) t (fun _ => True) ↔
      (connection.parser.state = .finished → NamesMet P connection.request connection.parser t) := by
  obtain ⟨seen, parsed⟩ := h.parser
  unfold handleRecord
  split
  · rename_i error
    refine ⟨fun _ finished => ?_, fun _ => ⟨_, _, rfl, trivial⟩⟩
    rw [error] at finished
    cases finished
  · split
    · rename_i finished
      rw [← yields_process_iff h.request (parsed.decoded finished), yields_bind_iff]
      constructor
      · rintro ⟨request, t', run, -⟩ _
        exact ⟨request, t', run, trivial⟩
      · intro met
        obtain ⟨request, t', run, -⟩ := met finished
        refine ⟨request, t', run, ?_⟩
        dsimp only
        split
        · exact ⟨_, _, rfl, trivial⟩
        · split
          · exact (ensures_requestExecute request).bind (fun _ _ => .pure trivial) t'
          · exact ⟨_, _, rfl, trivial⟩
    · rename_i unfinished
      exact ⟨fun _ finished => absurd finished unfinished, fun _ => ⟨_, _, rfl, trivial⟩⟩

/-- **A pass comes to its end**, if and only if the names that matter are met. -/
theorem yields_parsePass_iff {buffer : List UInt8} {progress : Progress} (h : Usable P progress.connection) (t : P.State) :
    Yields (parsePass buffer progress : Prog P _) t (fun _ => True) ↔ PassMet P buffer progress t := by
  obtain ⟨seen, parsed⟩ := h.parser
  unfold parsePass
  split
  · rename_i more
    obtain ⟨r, t₁, run, bound, consumed, -⟩ := parsed.ensures_parse (P := P) (buffer.drop progress.bytesParsed) t
    obtain ⟨_, t₂, logged, -⟩ := ensures_log (P := P)
      (parsed_matching (UInt64.ofNat (progress.bytesParsed + r.2 - progress.previous))) t₁
    have hands : handed buffer progress t = .ok (r.1, t₂) := by
      rw [handed, bind_apply, run]
      dsimp only
      rw [bind_apply, logged]
      rfl
    have usable : Usable P { progress.connection with parser := r.1 } := ⟨⟨_, consumed⟩, h.request⟩
    have met : PassMet P buffer progress t ↔ (r.1.state = .finished → NamesMet P progress.connection.request r.1 t₂) := by
      constructor
      · exact fun all finished => all more r.1 t₂ hands finished
      · intro here _ r' t' run' finished
        cases hands.symm.trans run'
        exact here finished
    have behind : Yields (handleRecord { progress.connection with parser := r.1 } : Prog P _) t₂ (fun _ => True) ↔
        (r.1.state = .finished → NamesMet P progress.connection.request r.1 t₂) := yields_handleRecord_iff usable t₂
    rw [met, ← behind, Yields, bind_apply, run]
    dsimp only
    rw [bind_apply, logged]
    dsimp only
    constructor
    · rintro ⟨flow, t', whole, -⟩
      obtain ⟨flow', t₃, first, -⟩ := exists_of_run_bind whole
      exact ⟨flow', t₃, first, trivial⟩
    · intro returns
      refine returns.bind fun flow t₃ _ => ?_
      cases flow with
      | done connection => exact ⟨_, _, rfl, trivial⟩
      | next connection => exact ⟨_, _, rfl, trivial⟩
  · rename_i none
    exact ⟨fun _ more => absurd more none, fun _ => ⟨_, _, rfl, trivial⟩⟩

/-! ## The whole loop -/

/-- What is said of a call of the parser, of its inner loops, and of the passes
of the loop around the call, whatever the allocator refuses. -/
structure Bounded (P : Platform) (parser : Parser) (connection : Connection) (buffer : List UInt8) : Prop where
  /-- No more octets are taken than are given, and fewer only as the last ones of a record. -/
  call : Ensures (parser.parse buffer : Prog P _) fun r =>
    r.2 ≤ buffer.length ∧ (r.2 < buffer.length → r.1.state = .finished ∨ r.1.state = .error)
  params : ∀ octet, Ensures (parser.parseParams octet : Prog P _) fun _ => True
  stdin : ∀ octet, Ensures (parser.parseStdin octet : Prog P _) fun _ => True
  /-- The inner loops do not go on and on from any other state either. -/
  inner : ∀ (other : Parser) (octet : UInt8) (s : P.State),
    other.parseParams octet s ≠ .error .diverged ∧ other.parseStdin octet s ≠ .error .diverged
  /-- Where a pass begins, and what its call of the parser adds. -/
  passes : ∀ (s : P.State) (k : Nat) (progress : Progress) (t : P.State),
    Passed (parsePass buffer) { connection } s k progress t →
    k ≤ 2 * buffer.length ∧ progress.bytesParsed ≤ buffer.length ∧
    (progress.bytesParsed < buffer.length → k < 2 * buffer.length ∧
      Ensures (progress.connection.parser.parse (buffer.drop progress.bytesParsed) : Prog P _) fun r =>
        progress.bytesParsed + r.2 ≤ buffer.length)
  /-- Nothing but a name that there was no memory for keeps the loop from its end. -/
  left : ∀ s : P.State,
    (∃ r, parseBuffer connection buffer s = .ok r) ∨ parseBuffer connection buffer s = .error .nullPointer ∧ ¬P.Succeeds

/-- From this state of the platform the loop comes to its end. -/
structure Progresses (P : Platform) (parser : Parser) (connection : Connection) (buffer : List UInt8) (s : P.State) : Prop
    extends Bounded P parser connection buffer where
  ends : ∃ r, parseBuffer connection buffer s = .ok r

theorem parse_loop_bounded {parser : Parser} (parsed : ReachedParser P parser) {connection : Connection}
    (reached : ReachedConnection P connection) (buffer : List UInt8) : Bounded P parser connection buffer := by
  obtain ⟨seen, here⟩ := parsed.at
  constructor
  · exact (here.ensures_parse buffer).mono fun r led => ⟨led.1, led.2.2⟩
  · exact here.ensures_parseParams
  · exact here.ensures_parseStdin
  · intro other octet s
    constructor
    · exact (Parser.confined_parseParams other octet).ne_error (fun ended => ended rfl) s
    · exact (Parser.confined_parseStdin other octet).ne_error (fun ended => ended rfl) s
  · intro s k progress t passes
    obtain ⟨within, count⟩ := passes.count (confined_parsePass buffer) ⟨reached.usable, Nat.zero_le _⟩
    have start := passesLeft_start connection buffer
    refine ⟨by omega, within.bound, fun more => ⟨?_, ?_⟩⟩
    · have again : 0 < passesLeft buffer progress := by
        rw [passesLeft, if_pos more]
        omega
      omega
    · obtain ⟨seen', there⟩ := within.usable.parser
      refine (there.ensures_parse _).mono fun r led => ?_
      have bound := led.1
      rw [List.length_drop] at bound
      omega
  · intro s
    rcases confined_parseBuffer reached.usable buffer s with ⟨connection', s', run, -⟩ | ⟨e, run, rfl, refused⟩
    · exact Or.inl ⟨_, run⟩
    · exact Or.inr ⟨run, refused⟩

/-- **The loop comes to its end**, if and only if each of its passes has the names that matter. -/
theorem parseBuffer_ends_iff {connection : Connection} (h : Usable P connection) (buffer : List UInt8) (s : P.State) :
    (∃ r, parseBuffer connection buffer s = .ok r) ↔
      ∀ k progress t, Passed (parsePass buffer) { connection } s k progress t → PassMet P buffer progress t := by
  have begins : Within P buffer { connection } := ⟨h, Nat.zero_le _⟩
  have loop := yields_whileLoop_iff (confined_parsePass (P := P) buffer) (2 * buffer.length + 1) { connection } s begins
    (Nat.lt_succ_of_le (passesLeft_start connection buffer))
  have returns : (∃ r, parseBuffer connection buffer s = .ok r) ↔
      Yields (parseBuffer connection buffer : Prog P _) s fun _ => True :=
    ⟨fun ⟨r, run⟩ => ⟨r.1, r.2, run, trivial⟩, fun ⟨connection', s', run, _⟩ => ⟨(connection', s'), run⟩⟩
  rw [returns, parseBuffer, loop]
  constructor
  · intro all k progress t passed
    have usable := (passed.count (confined_parsePass buffer) begins).1.usable
    exact (yields_parsePass_iff usable t).mp (all k progress t passed)
  · intro all k progress t passed
    have usable := (passed.count (confined_parsePass buffer) begins).1.usable
    exact (yields_parsePass_iff usable t).mpr (all k progress t passed)

/-- **The parse loop makes progress**, whatever the allocator refuses, and it
comes to its end if and only if each of its passes has the names that matter. -/
theorem parse_loop_progress_iff {parser : Parser} (parsed : ReachedParser P parser) {connection : Connection}
    (reached : ReachedConnection P connection) (buffer : List UInt8) (s : P.State) :
    Bounded P parser connection buffer ∧ (Progresses P parser connection buffer s ↔
      ∀ k progress t, Passed (parsePass buffer) { connection } s k progress t → PassMet P buffer progress t) := by
  have bounded := parse_loop_bounded parsed reached buffer
  refine ⟨bounded, ?_⟩
  rw [← parseBuffer_ends_iff reached.usable buffer s]
  exact ⟨Progresses.ends, fun ends => ⟨bounded, ends⟩⟩

/-- The begin record of request 1. -/
def beginOctets : List UInt8 := [1, 1, 0, 1, 0, 8, 0, 0, 0, 1, 0, 0, 0, 0, 0, 0]

/-- A params record with `A=B`, and the first octet of the next record. -/
def paramOctets : List UInt8 := [1, 4, 0, 1, 0, 4, 0, 0, 1, 1, 65, 66, 1]

/-- The parser between this name and this value. -/
def inParam : Parser :=
  { state := .paramNameData, messageSize := 3, messageHeader := { version := 1, type := typeParams, requestId := 1, contentLength := 4 }
    params := [{ nameLength := 1, valueLength := 1, name := some [some 65, none] }] }

/-- The connection behind the begin record. -/
def begunConnection : Connection := ⟨.init, begunOne, [beginOne], []⟩

/-- A value is refused, behind its name. -/
theorem parse_loop_progress_iff_value_refused :
    Bounded (oneRefused 11) inParam begunConnection paramOctets ∧
      (Progresses (oneRefused 11) inParam begunConnection paramOctets (answered 11 2) ↔
        ∀ k progress t, Passed (parsePass paramOctets) { connection := begunConnection } (answered 11 2) k progress t →
          PassMet (oneRefused 11) paramOctets progress t) := by
  have parser : ReachedParser (oneRefused 11) inParam := by
    have run : (Parser.init.parse (paramOctets.take 11) : Prog (oneRefused 11) _).value (answered 11 0) = .ok (inParam, 11) := by
      decide +kernel
    obtain ⟨s', run⟩ := exists_run_of_value run
    exact .step (.first rfl) ⟨_, _, _, _, run⟩
  have connection : ReachedConnection (oneRefused 11) begunConnection := by
    have run : (parseBuffer ⟨.init, .init paramsPreallocate, [], []⟩ beginOctets : Prog (oneRefused 11) _).value (answered 11 0) =
        .ok begunConnection := by decide +kernel
    obtain ⟨s', run⟩ := exists_run_of_value run
    exact .step (.first ⟨rfl, rfl⟩) (.parsed beginOctets run)
  exact parse_loop_progress_iff parser connection paramOctets (answered 11 2)

/-- The header of the name's string is refused, and the name is hashed. -/
theorem parse_loop_stopped :
    ReachedParser (oneRefused 9) .init ∧ ReachedConnection (oneRefused 9) ⟨.init, .init paramsPreallocate, [], []⟩ ∧
      ¬Progresses (oneRefused 9) .init ⟨.init, .init paramsPreallocate, [], []⟩ (beginOctets ++ paramOctets) (answered 9 0) := by
  have run : (parseBuffer ⟨.init, .init paramsPreallocate, [], []⟩ (beginOctets ++ paramOctets) : Prog (oneRefused 9) _).value
      (answered 9 0) = .error .nullPointer := by decide +kernel
  refine ⟨.first rfl, .first ⟨rfl, rfl⟩, fun progresses => ?_⟩
  obtain ⟨r, ends⟩ := progresses.ends
  rw [value, ends] at run
  cases run

end Cpptrw.Main
