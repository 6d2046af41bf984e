import Cpptrw.Main.Events

/-!
# Keeping a connection open

The flags of a request are those of the begin record at the front of the stream
(`returns_receiveFresh_flags`). They ask whether the connection is to be kept, but
`sl_main_process_connection` keeps it whenever the request is finished.
-/

namespace Cpptrw.Main

open Lib Lib.Prog Text Fcgi Hashtable

variable {P : Platform}

/-- The flags in the begin record at the front of a stream; a record without content has none. -/
def beginFlags (stream : List UInt8) : UInt8 :=
  if stream.getD 4 0 = 0 ∧ stream.getD 5 0 = 0 then 0 else stream.getD 10 0

/-- The octets that `recv` returns one after the other. -/
def receivedOctets : List Received → List UInt8
  | .octets octets :: results => octets ++ receivedOctets results
  | .closed :: _ => []
  | .failed :: _ => []
  | [] => []

/-- The flags in a stream are settled, and are these. -/
def ReadFlags (seen : List UInt8) (flags : UInt8) : Prop := ∀ more, flags = beginFlags (seen ++ more)

theorem ReadFlags.append {seen : List UInt8} {flags : UInt8} (h : ReadFlags seen flags) (more : List UInt8) :
    ReadFlags (seen ++ more) flags := by
  intro more'
  rw [List.append_assoc]
  exact h _

/-- The flags of a begin record that has been read. -/
theorem beginFlags_of_finished {seen : List UInt8} {p : Parser} (h : At P seen p) (finished : p.state = .finished)
    (type : p.messageHeader.type = typeBeginRequest) : ReadFlags seen p.beginMessage.flags := by
  have zero : ∀ {a b : UInt8}, a.toNat * 256 + b.toNat = 0 ↔ a = 0 ∧ b = 0 := by
    intro a b
    rw [← UInt8.toNat_inj, ← UInt8.toNat_inj, UInt8.toNat_zero]
    omega
  cases h with
  | header short => exact absurd (Or.inl finished) (not_settled_header short)
  | @body H x p h =>
    rw [h.header_of_finished finished] at type
    cases h with
    | empty none =>
      have octets := zero.mp none
      exact fun more => (if_pos octets).symm
    | begin content begin fits =>
      have eight := (beginState_finished _ fits).mp finished
      match x, eight with
      | [r1, r0, f, a, b, c, d, e], _ =>
        have octets := mt zero.mpr content
        exact fun more => (if_neg octets).symm
    | params content params h => exact absurd (params.symm.trans type) (by decide)
    | stdin content stdin h => exact absurd (stdin.symm.trans type) (by decide)
    | unknown content type => cases finished

/-- What is known of the begin record when `seen` has been received. -/
structure Begun (P : Platform) (seen : List UInt8) (connection : Connection) : Prop where
  reading : connection.request.state = .begin → connection.parser.state ≠ .error → At P seen connection.parser
  read : connection.request.state ≠ .begin → connection.request.state ≠ .error → ReadFlags seen connection.request.flags

/-- The parser reads on. -/
theorem Begun.parse {seen : List UInt8} {connection : Connection} (h : Begun P seen connection) (octets : List UInt8) :
    Returns (connection.parser.parse octets : Prog P _) fun r =>
      r.2 ≤ octets.length ∧ Begun P (seen ++ octets.take r.2) { connection with parser := r.1 } := by
  intro s r s' run
  refine ⟨(Parser.settling.returns_consume _ _ s r s' run).1, fun first ok => ?_, fun later live => ?_⟩
  · by_cases error : connection.parser.state = .error
    · rw [Parser.parse, Parser.settling.consume_settled (Or.inr error)] at run
      cases run
      exact absurd error ok
    · exact ((Parser.settling.ensures_consume at_step octets seen _ (h.reading first error)).of_run run).2.1
  · exact (h.read later live).append _

/-- Behind the parser. -/
theorem returns_handleRecord_begun {seen : List UInt8} {connection : Connection} (h : Begun P seen connection) :
    Returns (handleRecord connection : Prog P _) fun
      | .next connection' => Begun P seen connection'
      | .done connection' => ∀ more, Begun P (seen ++ more) connection' := by
  unfold handleRecord
  split
  · rename_i error
    exact returns_pure fun more => ⟨fun _ ok => absurd error ok, fun later live => (h.read later live).append more⟩
  · rename_i ok
    split
    · rename_i finished
      refine (returns_process connection.request finished).bind fun request outcome => ?_
      have after : request.state ≠ .begin ∧ (request.state ≠ .error → ReadFlags seen request.flags) := by
        cases outcome with
        | refused => exact ⟨nofun, fun live => absurd rfl live⟩
        | begun first type =>
          refine ⟨nofun, fun _ => ?_⟩
          exact beginFlags_of_finished (h.reading first ok) finished type
        | taken later parameters stdin =>
          refine ⟨RequestState.next_ne_begin _ _, fun live => h.read later fun error => live ?_⟩
          dsimp only
          rw [error]
          rfl
      have begun : ∀ connection' : Connection, connection'.request = request → ∀ more, Begun P (seen ++ more) connection' := by
        intro connection' same more
        rw [← same] at after
        exact ⟨fun first => absurd first after.1, fun _ live => (after.2 live).append more⟩
      dsimp only
      split
      · exact returns_pure (begun _ rfl)
      · split
        · exact (returns_any _).bind fun _ _ => returns_pure (begun _ rfl)
        · refine returns_pure ?_
          have now := begun { connection with request, records := connection.records ++ [connection.parser], parser := .init } rfl []
          rwa [List.append_nil] at now
    · exact returns_pure h

/-- One buffer. -/
theorem returns_parseBuffer_begun {seen : List UInt8} {connection : Connection} (h : Begun P seen connection)
    (buffer : List UInt8) : Returns (parseBuffer connection buffer : Prog P _) (Begun P (seen ++ buffer)) := by
  refine returns_whileLoop (fun progress : Progress =>
    progress.bytesParsed ≤ buffer.length ∧ Begun P (seen ++ buffer.take progress.bytesParsed) progress.connection)
    ?_ _ _ ⟨Nat.zero_le _, by simpa using h⟩
  intro progress ⟨bound, begun⟩
  unfold parsePass
  split
  · obtain ⟨connection, k, previous⟩ := progress
    dsimp only at bound begun ⊢
    have parsed : Returns (connection.parser.parse (buffer.drop k) : Prog P _) fun r =>
        k + r.2 ≤ buffer.length ∧ Begun P (seen ++ buffer.take (k + r.2)) { connection with parser := r.1 } := by
      refine (begun.parse (buffer.drop k)).mono fun r ⟨bound', begun'⟩ => ?_
      rw [List.length_drop] at bound'
      rw [List.append_assoc, ← List.take_add] at begun'
      exact ⟨by omega, begun'⟩
    refine parsed.bind fun r ⟨bound', begun'⟩ => (returns_any _).bind fun _ _ => ?_
    refine (returns_handleRecord_begun begun').bind fun session led => ?_
    cases session with
    | next connection' => exact returns_pure ⟨bound', led⟩
    | done connection' =>
      have whole := led (buffer.drop (k + r.2))
      rw [List.append_assoc, List.take_append_drop] at whole
      exact returns_pure whole
  · rename_i beyond
    rw [List.take_of_length_le (Nat.not_lt.mp beyond)] at begun
    exact returns_pure begun

/-- **The flags of a request are those of the begin record.** -/
theorem returns_recvLoop_flags (results : List Received) :
    ∀ {seen : List UInt8} {connection : Connection}, Begun P seen connection →
      Returns (recvLoop connection results : Prog P _) fun last => last.request.state = .finished →
        last.request.flags = beginFlags (seen ++ receivedOctets results) := by
  induction results with
  | nil =>
    intro seen connection h
    exact returns_pure fun finished => h.read (by rw [finished]; decide) (by rw [finished]; decide) []
  | cons result results ih =>
    intro seen connection h
    cases result with
    | octets octets =>
      refine (returns_any _).bind fun _ _ => (returns_parseBuffer_begun h octets).bind fun connection' begun => ?_
      have flags : connection'.request.state = .finished →
          connection'.request.flags = beginFlags (seen ++ (octets ++ receivedOctets results)) := by
        intro finished
        rw [← List.append_assoc]
        exact begun.read (by rw [finished]; decide) (by rw [finished]; decide) _
      split
      · exact returns_pure flags
      · split
        · exact returns_pure flags
        · refine (ih begun).mono fun last flags => ?_
          rwa [List.append_assoc] at flags
    | closed => exact returns_pure fun finished => h.read (by rw [finished]; decide) (by rw [finished]; decide) []
    | failed => exact returns_pure fun finished => h.read (by rw [finished]; decide) (by rw [finished]; decide) []

/-- The receive loop behind an initialisation. -/
def receiveFresh (connection : Connection) (results : List Received) : Prog P Connection :=
  initConnection connection >>= fun connection => recvLoop connection results

theorem returns_receiveFresh_flags (connection : Connection) (results : List Received) :
    Returns (receiveFresh connection results : Prog P _) fun last => last.request.state = .finished →
      last.request.flags = beginFlags (receivedOctets results) := by
  have begun : Begun P [] { connection with parser := .init, request := .init paramsPreallocate, records := [] } :=
    ⟨fun _ _ => .header (show 0 < 8 by decide), fun later => absurd rfl later⟩
  intro s last s' run
  exact returns_recvLoop_flags results begun _ last s' run

/-- A call of `sl_main_process_connection` behind an initialisation. -/
def processFresh (connection : Connection) (results : List Received) : Prog P (Call × Connection) :=
  initConnection connection >>= fun connection => processConnection connection results

/-- **The connection is kept as asked exactly when it was asked to be kept.** The
flags of the finished request are those of its begin record, and the call behind
which it is finished returns `1` whatever they are. -/
theorem kept_as_asked_iff (connection : Connection) (results : List Received) (s : P.State)
    (finished : Yields (receiveFresh connection results : Prog P _) s fun last =>
      last.request.state = .finished ∧ ¬last.Broken) :
    Yields (receiveFresh connection results : Prog P _) s (fun last => last.request.flags = beginFlags (receivedOctets results)) ∧
      (Yields (processFresh connection results : Prog P _) s (fun r =>
          r.1.kept = true ↔ beginFlags (receivedOctets results) &&& flagKeepConn = flagKeepConn) ↔
        beginFlags (receivedOctets results) &&& flagKeepConn = flagKeepConn) := by
  have flags : Yields (receiveFresh connection results : Prog P _) s fun last =>
      last.request.flags = beginFlags (receivedOctets results) := by
    obtain ⟨last, s', run, complete, -⟩ := finished
    exact ⟨last, s', run, returns_receiveFresh_flags connection results s last s' run complete⟩
  have whole : (processFresh connection results : Prog P _) = receiveFresh connection results >>= fun connection =>
      if connection.Broken then pure (⟨false, false⟩, connection)
      else if connection.request.state = .finished ∨ keepsConnection connection.request then
        initConnection connection >>= fun connection => pure (⟨true, true⟩, connection)
      else pure (⟨false, false⟩, connection) := by
    rw [processFresh, receiveFresh, bind_assoc]
    rfl
  have kept : Yields (processFresh connection results : Prog P _) s fun r => r.1.kept = true := by
    rw [whole]
    refine finished.bind fun last s' ⟨complete, fine⟩ => ?_
    rw [if_neg fine, if_pos (Or.inl complete)]
    refine Ensures.yields ((ensures_initConnection last).bind fun connection' _ => ?_) s'
    exact .pure rfl
  obtain ⟨r, s'', run', called⟩ := kept
  refine ⟨flags, ?_, ?_⟩
  · intro ⟨r', t, run'', as_asked⟩
    rw [run'] at run''
    cases run''
    exact as_asked.mp called
  · exact fun asked => ⟨r, s'', run', fun _ => asked, fun _ => called⟩

theorem kept_as_asked_iff_flagged :
    Yields (receiveFresh .fresh [.octets (emptyRequest 1)] : Prog .ample _) () (fun last =>
        last.request.flags = beginFlags (receivedOctets [.octets (emptyRequest 1)])) ∧
      (Yields (processFresh .fresh [.octets (emptyRequest 1)] : Prog .ample _) () (fun r =>
          r.1.kept = true ↔ beginFlags (receivedOctets [.octets (emptyRequest 1)]) &&& flagKeepConn = flagKeepConn) ↔
        beginFlags (receivedOctets [.octets (emptyRequest 1)]) &&& flagKeepConn = flagKeepConn) := by
  have finished : ((receiveFresh .fresh [.octets (emptyRequest 1)] : Prog .ample _).value ()).map
      (fun last => decide (last.request.state = .finished ∧ ¬last.Broken)) = .ok true := by decide +kernel
  exact kept_as_asked_iff .fresh [.octets (emptyRequest 1)] ()
    (((ensures_of_value finished).mono fun _ => of_decide_eq_true).yields ())

/-- Without the flag the connection is kept all the same. -/
theorem not_kept_as_asked :
    Yields (receiveFresh .fresh [.octets (emptyRequest 0)] : Prog .ample _) () (fun last =>
        last.request.state = .finished ∧ ¬last.Broken) ∧
      ¬Yields (processFresh .fresh [.octets (emptyRequest 0)] : Prog .ample _) () fun r =>
        r.1.kept = true ↔ beginFlags (receivedOctets [.octets (emptyRequest 0)]) &&& flagKeepConn = flagKeepConn := by
  have finished : ((receiveFresh .fresh [.octets (emptyRequest 0)] : Prog .ample _).value ()).map
      (fun last => decide (last.request.state = .finished ∧ ¬last.Broken)) = .ok true := by decide +kernel
  refine ⟨((ensures_of_value finished).mono fun _ => of_decide_eq_true).yields (), fun yields => ?_⟩
  have kept : ((processFresh .fresh [.octets (emptyRequest 0)] : Prog .ample _).value ()).map (·.1.kept) = .ok true := by
    decide +kernel
  obtain ⟨r, called, as_asked⟩ := yields.and (ensures_of_value kept)
  exact absurd (as_asked.mp called) (by decide)

end Cpptrw.Main
