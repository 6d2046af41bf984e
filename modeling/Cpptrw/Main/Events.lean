import Cpptrw.Main.Chunking

/-!
# Buffers and readiness events

What becomes of the requests in a stream. A request is executed at most once,
and only when it is complete; but it has to arrive in one readiness event,
since every call of `sl_main_process_connection` either closes the connection
or starts it anew, and what follows a request in the same buffer is dropped.
-/

namespace Cpptrw.Main

open Lib Lib.Prog Text Fcgi Hashtable

variable {P : Platform}

/-! ## Any number of buffers -/

/-- A connection between two calls of `sl_main_parse_buffer`; `start` had just been initialised. -/
def Between (start connection : Connection) : Prop :=
  Waiting connection ∧ connection.executed = start.executed ∨
    Closed connection ∧ (connection.executed = start.executed ∨ ∃ request, connection.executed = start.executed ++ [request])

theorem Between.length_le {start connection : Connection} (h : Between start connection) :
    connection.executed.length ≤ start.executed.length + 1 := by
  rcases h with ⟨-, same⟩ | ⟨-, same | ⟨request, more⟩⟩
  · rw [same]
    omega
  · rw [same]
    omega
  · rw [more, List.length_append, List.length_singleton]

/-- A waiting connection is not broken. -/
theorem Waiting.not_broken {connection : Connection} (h : Waiting connection) : ¬connection.Broken := by
  intro broken
  rcases broken with error | error
  · exact h.live.2 error
  · exact h.parser error

/-- What one call may do. -/
structure CallKeeps (start before after : Connection) : Prop where
  between : Between start after
  executes : after.executed ≠ before.executed →
    before.executed = start.executed ∧ ∃ request, after.executed = before.executed ++ [request] ∧ Complete after.records
  broken : before.Broken → after.executed = before.executed ∧ Closed after

theorem returns_between {start before : Connection} (h : Between start before) (buffer : List UInt8) :
    Returns (parseBuffer before buffer : Prog P _) (CallKeeps start before) := by
  rcases h with ⟨waiting, same⟩ | ⟨closed, made⟩
  · refine (returns_parseBuffer waiting buffer).mono fun after led => ?_
    rcases led with ⟨waits, kept⟩ | ⟨closed, kept | ⟨request, called, complete⟩⟩
    · exact ⟨Or.inl ⟨waits, kept.trans same⟩, fun other => absurd kept other, fun broken => absurd broken waiting.not_broken⟩
    · exact ⟨Or.inr ⟨closed, Or.inl (kept.trans same)⟩, fun other => absurd kept other,
        fun broken => absurd broken waiting.not_broken⟩
    · refine ⟨Or.inr ⟨closed, Or.inr ⟨request, ?_⟩⟩, fun _ => ⟨same, request, called, complete⟩,
        fun broken => absurd broken waiting.not_broken⟩
      rw [called, same]
  · refine (returns_parseBuffer_closed closed buffer).mono fun after led => ?_
    obtain ⟨closed', kept⟩ := led
    refine ⟨Or.inr ⟨closed', ?_⟩, fun other => absurd kept other, fun _ => ⟨kept, closed'⟩⟩
    rw [kept]
    exact made

theorem returns_betweenAll {start : Connection} (buffers : List (List UInt8)) :
    ∀ {before : Connection}, Between start before →
      Returns (parseBuffers before buffers : Prog P _) (Between start) := by
  induction buffers with
  | nil => exact fun h => returns_pure h
  | cons buffer buffers ih =>
    intro before h
    exact (returns_between h buffer).bind fun after kept => ih kept.between

theorem returns_parseBuffers_closed (buffers : List (List UInt8)) :
    ∀ {before : Connection}, Closed before →
      Returns (parseBuffers before buffers : Prog P _) fun after => after.executed = before.executed := by
  induction buffers with
  | nil => exact fun _ => returns_pure rfl
  | cons buffer buffers ih =>
    intro before closed
    refine (returns_parseBuffer_closed closed buffer).bind fun after led => ?_
    rw [← led.2]
    exact ih led.1

theorem ensures_parseBuffers (all : P.Succeeds) (buffers : List (List UInt8)) :
    ∀ {connection : Connection}, Sound P connection →
      Ensures (parseBuffers connection buffers : Prog P _) (Sound P) := by
  induction buffers with
  | nil => exact fun sound => .pure sound
  | cons buffer buffers ih =>
    intro connection sound
    exact (ensures_parseBuffer all sound buffer).bind fun _ sound' => ih sound'

/-- A call of `sl_main_parse_buffer`, watched, among others. -/
def watched (connection : Connection) (front : List (List UInt8)) (buffer : List UInt8) (back : List (List UInt8)) :
    Prog P (Connection × Connection × Connection × Connection) := do
  let start ← initConnection connection
  let before ← parseBuffers start front
  let after ← parseBuffer before buffer
  let last ← parseBuffers after back
  pure (start, before, after, last)

/-- **A request is executed at most once, and only when it is complete.** Of all
buffers behind an initialisation, one at most leads to a call of
`sl_main_request_execute`; the records are a complete request then, and nothing
is executed behind an error. Under sufficient memory none of the calls faults. -/
theorem executed_once_when_complete (connection : Connection) (front : List (List UInt8)) (buffer : List UInt8)
    (back : List (List UInt8)) :
    Returns (watched connection front buffer back : Prog P _) (fun (start, before, after, last) =>
        last.executed.length ≤ start.executed.length + 1 ∧
        (after.executed ≠ before.executed → before.executed = start.executed ∧
          ∃ request, after.executed = before.executed ++ [request] ∧ Complete after.records) ∧
        (after.Broken → last.executed = after.executed)) ∧
      (P.Succeeds → Ensures (watched connection front buffer back : Prog P _) fun _ => True) := by
  constructor
  · have init : Returns (initConnection connection : Prog P _) fun start => Between start start := by
      refine (returns_any _).bind fun _ _ => returns_pure (Or.inl ⟨⟨⟨nofun, nofun⟩, nofun, rfl⟩, rfl⟩)
    refine init.bind fun start here => (returns_betweenAll front here).bind fun before reached => ?_
    refine (returns_between reached buffer).bind fun after kept => ?_
    have rest : Returns (parseBuffers after back : Prog P _) fun last =>
        Between start last ∧ (after.Broken → last.executed = after.executed) := by
      intro s last s' run
      refine ⟨returns_betweenAll back kept.between s last s' run, fun broken => ?_⟩
      rcases kept.between with ⟨waiting, -⟩ | ⟨closed, -⟩
      · exact absurd broken waiting.not_broken
      · exact returns_parseBuffers_closed back closed s last s' run
    exact rest.bind fun last led => returns_pure ⟨led.1.length_le, kept.executes, led.2⟩
  · intro all
    refine (ensures_initConnection connection).bind fun start sound => ?_
    refine (ensures_parseBuffers all front sound).bind fun before sound => ?_
    refine (ensures_parseBuffer all sound buffer).bind fun after sound => ?_
    exact (ensures_parseBuffers all back sound).bind fun last _ => .pure trivial

/-! ## Readiness events -/

/-- A stream that is one request: it is executed on the last octet, and not before. -/
structure IsRequest (P : Platform) (stream : List UInt8) : Prop where
  executed : Ensures (parseBuffer .fresh stream : Prog P _) fun connection => connection.executed ≠ []
  notBefore : ∀ front back, stream = front ++ back → back ≠ [] →
    Ensures (parseBuffer .fresh front : Prog P _) fun connection => connection.executed = []

/-- What `recv` returns in a readiness event: full buffers up to the last one. -/
structure IsEvent (chunks : List (List UInt8)) : Prop where
  some : chunks ≠ []
  sizes : ∀ chunk ∈ chunks, chunk ≠ [] ∧ chunk.length ≤ recvBufferSize
  full : ∀ chunk ∈ chunks.dropLast, chunk.length = recvBufferSize

/-- The octets of an event as the answers of `recv`. -/
def received (chunks : List (List UInt8)) : List Received := chunks.map .octets

/-- The cuts of a stream cannot be told from what became of it: before the last
event the connection is neither closed nor started anew, and the one execution
is that of the stream in one piece. -/
structure Unfragmented (P : Platform) (stream : List UInt8) (earlier : Nat) (r : List Call × Connection) : Prop where
  waits : ∀ call ∈ r.1.take earlier, call.kept = true ∧ call.reinitialised = false
  executed : ∃ request, r.2.executed = [request] ∧
    Ensures (parseBuffer .fresh stream : Prog P _) fun whole => whole.executed = [request]

theorem Connection.fresh_open : Connection.fresh.Open := ⟨⟨nofun, nofun⟩, nofun⟩

theorem Connection.fresh_waiting : Waiting .fresh := ⟨⟨nofun, nofun⟩, nofun, rfl⟩

theorem Connection.fresh_sound : Sound P .fresh := sound_init []

/-- What is ensured of a run holds of the connection it leaves. -/
theorem Runs.holds {connection connection' : Connection} {buffer : List UInt8} (run : Runs P connection buffer connection')
    (s : P.State) {Q : Connection → Prop} (h : Ensures (parseBuffer connection buffer : Prog P _) Q) : Q connection' := by
  obtain ⟨last, s', eq, same⟩ := run s
  subst same
  exact h.of_run eq

/-- Before its last octet a request is open. -/
theorem IsRequest.open_before (all : P.Succeeds) (s : P.State) {stream front back : List UInt8} (h : IsRequest P stream)
    (split : stream = front ++ back) (more : back ≠ []) : ∃ middle, Runs P .fresh front middle ∧ middle.Open := by
  obtain ⟨middle, run, -, -, stays⟩ := exists_run all s Connection.fresh_sound front
  refine ⟨middle, run, ?_⟩
  by_contra closed
  have whole := stays Connection.fresh_open closed back
  rw [← split] at whole
  have executed := whole.holds s h.executed
  exact executed (run.holds s (h.notBefore front back split more))

/-- One execution at its end. -/
theorem IsRequest.executed_once (all : P.Succeeds) (s : P.State) {stream : List UInt8} (h : IsRequest P stream) :
    ∃ last request, Runs P .fresh stream last ∧ last.executed = [request] := by
  obtain ⟨last, run, -, -⟩ := exists_run all s Connection.fresh_sound stream
  have some := run.holds s h.executed
  have led := run.and_returns (returns_parseBuffer Connection.fresh_waiting stream)
  obtain ⟨last', s', -, same, led⟩ := led s
  rw [same] at led
  rcases led with ⟨-, none⟩ | ⟨-, none | ⟨request, called, -⟩⟩
  · exact absurd none some
  · exact absurd none some
  · exact ⟨last, request, run, called⟩

/-- **The receive loop over the pieces of a stream** does what one buffer with the
stream does, if the connection is open until the end. -/
theorem ensures_recvLoop (all : P.Succeeds) (s : P.State) (chunks : List (List UInt8)) :
    ∀ {connection last : Connection}, chunks ≠ [] → (∀ chunk ∈ chunks, chunk ≠ []) →
      (∀ chunk ∈ chunks.dropLast, chunk.length = recvBufferSize) → Sound P connection →
      (∀ front back, chunks.flatten = front ++ back → back ≠ [] → ∃ middle, Runs P connection front middle ∧ middle.Open) →
      Runs P connection chunks.flatten last →
      Ensures (recvLoop connection (received chunks) : Prog P _) (· = last) := by
  induction chunks with
  | nil => exact fun some => absurd rfl some
  | cons chunk chunks ih =>
    intro connection last _ some full sound opened run
    rw [received, List.map_cons, recvLoop]
    refine (ensures_log (received_matching _)).bind fun _ _ => ?_
    by_cases none : chunks = []
    · subst none
      rw [List.flatten_cons, List.flatten_nil, List.append_nil] at run
      refine run.bind fun connection' same => ?_
      subst same
      split
      · exact .pure rfl
      · split
        · exact .pure rfl
        · exact .pure rfl
    · obtain ⟨some', rest⟩ := List.forall_mem_cons.mp some
      rw [List.dropLast_cons_of_ne_nil none] at full
      obtain ⟨whole, full⟩ := List.forall_mem_cons.mp full
      have more : chunks.flatten ≠ [] := by
        obtain ⟨next, others, rfl⟩ := List.exists_cons_of_ne_nil none
        simp [rest next (by simp)]
      obtain ⟨middle, run', sound', goesOn, -⟩ := exists_run all s sound chunk
      obtain ⟨middle', run'', open'⟩ := opened chunk chunks.flatten rfl more
      have same := run''.holds s run'
      subst same
      refine run'.bind fun connection' same => ?_
      subst same
      have unbroken : ¬connection'.Broken := by
        intro broken
        rcases broken with error | error
        · exact open'.request.2 error
        · exact open'.parser error
      rw [if_neg unbroken, if_neg (by rw [whole]; exact Nat.lt_irrefl _)]
      refine ih none rest full sound' ?_ ?_
      · intro front back split more
        obtain ⟨last', runs, runs'⟩ := goesOn open' front
        obtain ⟨last'', runs'', open''⟩ := opened (chunk ++ front) back (by rw [List.flatten_cons, split, List.append_assoc]) more
        have same := runs''.holds s runs'
        subst same
        exact ⟨last'', runs, open''⟩
      · obtain ⟨last', runs, runs'⟩ := goesOn open' chunks.flatten
        have same := run.holds s runs'
        subst same
        exact runs

/-- Each call closes the connection or starts it anew. -/
theorem returns_processConnection (connection : Connection) (results : List Received) :
    Returns (processConnection connection results : Prog P _) fun r => r.1.kept = r.1.reinitialised := by
  refine (returns_any _).bind fun connection' _ => ?_
  split
  · exact returns_pure rfl
  · split
    · exact (returns_any _).bind fun _ _ => returns_pure rfl
    · exact returns_pure rfl

/-- The call behind a receive loop keeps the history. -/
theorem ensures_processConnection {connection : Connection} {results : List Received} {executed : List Request}
    (h : Ensures (recvLoop connection results : Prog P _) fun last => last.executed = executed) :
    Ensures (processConnection connection results : Prog P _) fun r => r.2.executed = executed := by
  refine h.bind fun last same => ?_
  split
  · exact .pure same
  · split
    · simp only [initConnection, bind_assoc, pure_bind]
      exact ensures_rewind.bind fun _ _ => .pure same
    · exact .pure same

/-- **The cuts of a request go unnoticed exactly when it arrives in one event.** -/
theorem unfragmented_iff (all : P.Succeeds) {stream : List UInt8} (request : IsRequest P stream)
    {before : List (List (List UInt8))} {last : List (List UInt8)} (events : ∀ event ∈ before ++ [last], IsEvent event)
    (cut : (before ++ [last]).flatten.flatten = stream) (s : P.State) :
    Yields (serve .fresh ((before ++ [last]).map received) : Prog P _) s (Unfragmented P stream before.length) ↔
      before = [] := by
  constructor
  · intro yields
    by_contra some
    obtain ⟨first, rest, rfl⟩ := List.exists_cons_of_ne_nil some
    obtain ⟨r, s', run, whole⟩ := yields
    have called : Returns (serve .fresh ((first :: rest ++ [last]).map received) : Prog P _) fun r =>
        ∃ call calls, r.1 = call :: calls ∧ call.kept = call.reinitialised := by
      rw [List.cons_append, List.map_cons, serve]
      refine (returns_processConnection _ _).bind fun r same => ?_
      split
      · exact (returns_any _).bind fun r' _ => returns_pure ⟨r.1, r'.1, rfl, same⟩
      · exact returns_pure ⟨r.1, [], rfl, same⟩
    obtain ⟨call, calls, split, same⟩ := called s r s' run
    have waits := whole.waits call (by rw [split]; simp)
    rw [waits.1, waits.2] at same
    cases same
  · intro none
    subst none
    have event := events last (by simp)
    rw [List.nil_append, List.flatten_singleton] at cut
    obtain ⟨final, executed, run, called⟩ := request.executed_once all s
    have opened : ∀ front back, last.flatten = front ++ back → back ≠ [] →
        ∃ middle, Runs P .fresh front middle ∧ middle.Open :=
      fun front back split more => request.open_before all s (cut.symm.trans split) more
    rw [← cut] at run
    have loop := ensures_recvLoop all s last event.some (fun chunk mem => (event.sizes chunk mem).1) event.full
      Connection.fresh_sound opened run
    refine Ensures.yields ?_ s
    have kept := ensures_processConnection (loop.mono fun _ same => show _ = [executed] from same ▸ called)
    rw [List.nil_append, List.map_singleton, serve]
    rw [cut] at run
    have unsplit := run.mono fun _ same => same ▸ called
    refine kept.bind fun r same => ?_
    split
    · exact .pure ⟨by simp, executed, same, unsplit⟩
    · exact .pure ⟨by simp, executed, same, unsplit⟩

/-- A request with an empty set of parameters and an empty body. -/
def emptyRequest (flags : UInt8) : List UInt8 :=
  [1, 1, 0, 1, 0, 8, 0, 0, 0, 1, flags, 0, 0, 0, 0, 0] ++ [1, 4, 0, 1, 0, 0, 0, 0] ++ [1, 5, 0, 1, 0, 0, 0, 0]

/-- A stream is a request if the runs with each of its beginnings say so. -/
theorem isRequest_of_values {stream : List UInt8}
    (executed : ((parseBuffer .fresh stream : Prog .ample _).value ()).map (decide <| ·.executed ≠ []) = .ok true)
    (notBefore : ∀ n < stream.length,
      ((parseBuffer .fresh (stream.take n) : Prog .ample _).value ()).map (·.executed) = .ok []) :
    IsRequest .ample stream := by
  constructor
  · exact (ensures_of_value executed).mono fun _ => of_decide_eq_true
  · intro front back split more
    subst split
    have short := notBefore front.length (by simp [List.length_pos_iff.mpr more])
    rw [List.take_left' rfl] at short
    exact ensures_of_value short

theorem isRequest_empty : IsRequest .ample (emptyRequest 0) :=
  isRequest_of_values (by decide +kernel) (by decide +kernel)

theorem isRequest_empty_kept : IsRequest .ample (emptyRequest 1) :=
  isRequest_of_values (by decide +kernel) (by decide +kernel)

theorem isEvent_singleton {chunk : List UInt8} (some : chunk ≠ []) (short : chunk.length ≤ recvBufferSize) :
    IsEvent [chunk] := by
  refine ⟨by simp, fun chunk' mem => ?_, by simp⟩
  rw [List.mem_singleton.mp mem]
  exact ⟨some, short⟩

theorem unfragmented_iff_whole :
    Yields (serve .fresh (([] ++ [[emptyRequest 0]]).map received) : Prog .ample _) () (Unfragmented .ample (emptyRequest 0) 0) ↔
      ([] : List (List (List UInt8))) = [] :=
  @unfragmented_iff .ample Platform.ample_succeeds (emptyRequest 0) isRequest_empty [] [emptyRequest 0]
    (by
      intro event mem
      rw [List.mem_singleton.mp mem]
      exact isEvent_singleton (by decide) (by decide))
    (by decide) ()

/-- Ten octets in one event and the others in the next: the connection is closed after the first. -/
theorem not_unfragmented_cut :
    IsRequest .ample (emptyRequest 0) ∧ IsEvent [(emptyRequest 0).take 10] ∧ IsEvent [(emptyRequest 0).drop 10] ∧
      ¬Yields (serve .fresh ([[(emptyRequest 0).take 10], [(emptyRequest 0).drop 10]].map received) : Prog .ample _) ()
        (Unfragmented .ample (emptyRequest 0) 1) := by
  refine ⟨isRequest_empty, isEvent_singleton (by decide) (by decide), isEvent_singleton (by decide) (by decide), ?_⟩
  intro yields
  have run : ((serve .fresh ([[(emptyRequest 0).take 10], [(emptyRequest 0).drop 10]].map received) : Prog .ample _).value
      ()).map Prod.fst = .ok [⟨false, false⟩] := by decide +kernel
  obtain ⟨r, called, whole⟩ := yields.and (ensures_of_value run)
  have waits := whole.waits ⟨false, false⟩ (by rw [called]; simp)
  cases waits.1

/-! ## Several requests in a buffer -/

/-- **The requests of a buffer are all executed exactly when there is one.** -/
theorem pipelined_iff (all : P.Succeeds) {streams : List (List UInt8)} (some : streams ≠ [])
    (requests : ∀ stream ∈ streams, IsRequest P stream) (short : streams.flatten.length < recvBufferSize) (s : P.State) :
    Yields (processConnection .fresh [.octets streams.flatten] : Prog P _) s (fun r =>
        List.Forall₂ (fun stream request =>
          Ensures (parseBuffer .fresh stream : Prog P _) fun alone => alone.executed = [request]) streams r.2.executed) ↔
      streams.length = 1 := by
  have loop : (recvLoop .fresh [.octets streams.flatten] : Prog P _) =
      logWriteFormat receivedFormat [.number (UInt64.ofNat streams.flatten.length)] >>= fun _ =>
        parseBuffer .fresh streams.flatten := by
    rw [recvLoop]
    simp only [if_pos short, ite_self, bind_pure]
  constructor
  · intro yields
    have once : Returns (processConnection .fresh [.octets streams.flatten] : Prog P _) fun r => r.2.executed.length ≤ 1 := by
      rw [processConnection, loop]
      refine Returns.bind (Q := fun last => last.executed.length ≤ 1) ?_ fun last few => ?_
      · refine (returns_any _).bind fun _ _ => (returns_between (Or.inl ⟨Connection.fresh_waiting, rfl⟩) _).mono ?_
        exact fun last kept => kept.between.length_le
      · split
        · exact returns_pure few
        · split
          · simp only [initConnection, bind_assoc, pure_bind]
            exact (returns_any _).bind fun _ _ => returns_pure few
          · exact returns_pure few
    obtain ⟨r, s', run, each⟩ := yields
    have few : r.2.executed.length ≤ 1 := once s r s' run
    rw [← each.length_eq] at few
    have := List.length_pos_iff.mpr some
    omega
  · intro one
    obtain ⟨stream, rfl⟩ := List.length_eq_one_iff.mp one
    obtain ⟨last, request, run, called⟩ := (requests stream (by simp)).executed_once all s
    have alone := run.mono fun _ same => same ▸ called
    rw [List.flatten_singleton] at loop ⊢
    have received : Ensures (recvLoop .fresh [.octets stream] : Prog P _) fun last => last.executed = [request] := by
      rw [loop]
      exact (ensures_log (received_matching _)).bind fun _ _ => alone
    refine Ensures.yields ((ensures_processConnection received).mono fun r same => ?_) s
    rw [same]
    exact .cons alone .nil

theorem pipelined_iff_one :
    Yields (processConnection .fresh [.octets [emptyRequest 1].flatten] : Prog .ample _) () (fun r =>
        List.Forall₂ (fun stream request =>
          Ensures (parseBuffer .fresh stream : Prog .ample _) fun alone => alone.executed = [request])
          [emptyRequest 1] r.2.executed) ↔
      [emptyRequest 1].length = 1 :=
  pipelined_iff Platform.ample_succeeds (by simp)
    (by
      intro stream mem
      rw [List.mem_singleton.mp mem]
      exact isRequest_empty_kept)
    (by decide) ()

/-- Of two requests that come together, both with the flag to keep the connection, the second is lost. -/
theorem not_pipelined_two :
    IsRequest .ample (emptyRequest 1) ∧
      ((parseBuffer .fresh (emptyRequest 1) : Prog .ample _).value ()).map (·.executed.map (·.flags)) = .ok [flagKeepConn] ∧
      ¬Yields (processConnection .fresh [.octets (emptyRequest 1 ++ emptyRequest 1)] : Prog .ample _) () (fun r =>
        List.Forall₂ (fun stream request =>
          Ensures (parseBuffer .fresh stream : Prog .ample _) fun alone => alone.executed = [request])
          [emptyRequest 1, emptyRequest 1] r.2.executed) := by
  refine ⟨isRequest_empty_kept, by decide +kernel, fun yields => ?_⟩
  have run : ((processConnection .fresh [.octets (emptyRequest 1 ++ emptyRequest 1)] : Prog .ample _).value ()).map
      (·.2.executed.length) = .ok 1 := by decide +kernel
  obtain ⟨r, few, each⟩ := yields.and (ensures_of_value run)
  have same := each.length_eq
  rw [few] at same
  cases same

end Cpptrw.Main
