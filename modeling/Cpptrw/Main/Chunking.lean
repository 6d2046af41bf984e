import Cpptrw.Fcgi.RequestRun
import Cpptrw.Main.Execution

/-!
# Cutting a stream between calls

`Runs P connection buffer connection'` says that `sl_main_parse_buffer` returns
and leaves `connection'`, wherever the allocator and the kernel stand. From a
connection that was made and used by the program there is exactly one such run
(`exists_run`), and it can be cut anywhere as long as the connection is open.
-/

namespace Cpptrw.Main

open Lib Lib.Prog Text Fcgi Hashtable

variable {P : Platform}

/-- Neither the parser nor the request has come to an end. -/
structure Connection.Open (connection : Connection) : Prop where
  request : Live connection.request
  parser : connection.parser.state ≠ .error

/-- The connections the program makes. -/
inductive Reachable (P : Platform) : Connection → Prop
  | init {connection connection' : Connection} {s s' : P.State}
      (run : initConnection connection s = .ok (connection', s')) : Reachable P connection'
  | parse {connection connection' : Connection} {buffer : List UInt8} {s s' : P.State} (h : Reachable P connection)
      (run : parseBuffer connection buffer s = .ok (connection', s')) : Reachable P connection'

/-- `sl_main_parse_buffer` returns and leaves this connection. -/
def Runs (P : Platform) (connection : Connection) (buffer : List UInt8) (connection' : Connection) : Prop :=
  Ensures (parseBuffer connection buffer : Prog P _) (· = connection')

/-! ## What holds of a connection -/

/-- The parser is one that some octets lead to, and the request the one that the records do. -/
structure Sound (P : Platform) (connection : Connection) : Prop where
  parser : ∃ seen, At P seen connection.parser
  request : Processed connection.records connection.request

/-- A session of a connection that was live at first, if `live` holds. -/
def Session.Good (P : Platform) (live : Prop) : Session → Prop
  | .next connection => Sound P connection ∧ (live → connection.Open)
  | .done connection => Sound P connection ∧ ¬connection.Open

theorem ensures_settle (all : P.Succeeds) {connection : Connection} (h : Sound P connection) {live : Prop}
    (begun : live → Live connection.request) : Ensures (settle connection : Prog P _) (Session.Good P live) := by
  unfold settle
  split
  · rename_i error
    exact .pure ⟨h, fun opened => opened.parser error⟩
  · rename_i ok
    split
    · rename_i finished
      obtain ⟨seen, here⟩ := h.parser
      refine (ensures_process all h.request (here.decoded finished)).bind fun request processed' => ?_
      split
      · rename_i error
        exact .pure ⟨⟨h.parser, processed'⟩, fun opened => opened.request.2 error⟩
      · rename_i fine
        split
        · rename_i complete
          exact .pure ⟨⟨h.parser, processed'⟩, fun opened => opened.request.1 complete⟩
        · rename_i incomplete
          refine .pure ⟨⟨⟨[], .header (show 0 < 8 by decide)⟩, processed'⟩, fun _ => ⟨⟨incomplete, fine⟩, ?_⟩⟩
          nofun
    · exact .pure ⟨h, fun alive => ⟨begun alive, ok⟩⟩

/-- **One octet.** -/
theorem ensures_feed (all : P.Succeeds) {live : Prop} (session : Session) (octet : UInt8)
    (h : session.Good P live) : Ensures (feed session octet : Prog P _) fun
      | .advance session' => session'.Good P live
      | .finish session' => session'.Good P live
      | .stop session' => session'.Good P live := by
  cases session with
  | done connection => exact .pure h
  | next connection =>
    obtain ⟨sound, opened⟩ := h
    obtain ⟨seen, here⟩ := sound.parser
    have settled : ∀ {parser : Parser}, (∃ seen, At P seen parser) →
        Ensures (settle { connection with parser } : Prog P _) (Session.Good P live) := by
      intro parser reached
      have here : Sound P { connection with parser } := ⟨reached, sound.request⟩
      exact ensures_settle all here fun alive => (opened alive).request
    have take : ∀ {parser : Parser}, (∃ seen, At P seen parser) →
        Ensures (takeOctet { connection with parser } : Prog P _) fun
          | .advance session' => session'.Good P live
          | .finish session' => session'.Good P live
          | .stop session' => session'.Good P live := by
      intro parser reached
      refine (settled reached).bind fun session' good => ?_
      cases session' with
      | next connection' => exact .pure good
      | done connection' => exact .pure good
    refine (at_step seen connection.parser octet here).bind fun v kept => ?_
    cases v with
    | advance parser => exact take ⟨_, kept⟩
    | finish parser => exact take ⟨_, kept⟩
    | stop parser =>
      refine (settled ⟨_, kept⟩).bind fun session' good => ?_
      cases session' with
      | done connection' => exact .pure good
      | next connection' =>
        refine .pure ⟨⟨⟨[octet], .header (show 1 < 8 by decide)⟩, good.1.request⟩, fun alive => ?_⟩
        exact ⟨(good.2 alive).request, nofun⟩

/-- **Any octets.** -/
theorem ensures_consume_feed (all : P.Succeeds) {live : Prop} {session : Session} (h : session.Good P live)
    (octets : List UInt8) : Ensures (consume feed session octets : Prog P _) fun r => r.1.Good P live := by
  have keeps : ∀ (seen : List UInt8) (session : Session) (octet : UInt8), session.Good P live →
      Ensures (feed session octet : Prog P _) (Verdict.Keeps (fun _ session => session.Good P live) seen octet) := by
    intro seen session octet good
    refine (ensures_feed all session octet good).mono fun v kept => ?_
    cases v <;> exact kept
  exact (feed_settling.ensures_consume keeps octets [] session h).mono fun r hr => hr.2.1

/-! ## Runs -/

theorem sound_init (executed : List Request) : Sound P ⟨.init, .init paramsPreallocate, [], executed⟩ :=
  ⟨⟨[], .header (show 0 < 8 by decide)⟩, .init (by decide) (by decide)⟩

/-- A buffer is fed octet by octet. -/
theorem ensures_parseBuffer_of_fed (all : P.Succeeds) {connection : Connection} {octets : List UInt8}
    {Q : Session × Nat → Prop} (fed : Ensures (consume feed (.next connection) octets : Prog P _) Q) :
    Ensures (parseBuffer connection octets : Prog P _) fun connection' => ∃ r, Q r ∧ Session.connection r.1 = connection' :=
  (fed.bind fun r h => .pure ⟨r, h, rfl⟩ : Ensures _ _).agree (agree_parseBuffer all connection octets).symm

/-- **The run of a buffer.** It returns, and behind any first part of it the rest
is a run of its own, or is not looked at any more. -/
theorem exists_run (all : P.Succeeds) (s : P.State) {connection : Connection} (sound : Sound P connection)
    (front : List UInt8) :
    ∃ middle, Runs P connection front middle ∧ Sound P middle ∧
      (middle.Open → ∀ back, ∃ last, Runs P middle back last ∧ Runs P connection (front ++ back) last) ∧
      (connection.Open → ¬middle.Open → ∀ back, Runs P connection (front ++ back) middle) := by
  have steady : ∀ session octets, Steady (consume feed session octets : Prog P _) :=
    fun session octets => compositional_consume (compositional_steady all) (steady_feed all) octets session
  have good : Session.Good P connection.Open (.next connection) := ⟨sound, id⟩
  obtain ⟨⟨session, n⟩, fed, reached⟩ := (steady (.next connection) front).exists_value
    (ensures_consume_feed all good front) s
  have run : ∀ {connection : Connection} {octets : List UInt8} {session : Session} {n : Nat},
      Ensures (consume feed (.next connection) octets : Prog P _) (· = (session, n)) →
      Runs P connection octets session.connection := by
    intro connection octets session n fed
    refine (ensures_parseBuffer_of_fed all fed).mono fun connection' ⟨r, same, here⟩ => ?_
    rw [← here, same]
  refine ⟨session.connection, run fed, ?_, ?_, ?_⟩
  · cases session with
    | next connection' => exact reached.1
    | done connection' => exact reached.1
  · intro opened back
    cases session with
    | done connection' => exact absurd opened reached.2
    | next connection' =>
      obtain ⟨⟨session', n'⟩, fed', -⟩ := (steady (.next connection') back).exists_value
        (ensures_consume_feed all reached back) s
      refine ⟨session'.connection, run fed', run (n := n + n') ?_⟩
      rw [feed_settling.consume_append]
      refine fed.bind fun r same => ?_
      subst same
      refine fed'.bind fun r' same' => ?_
      subst same'
      exact .pure rfl
  · intro opened closed back
    cases session with
    | next connection' => exact absurd (reached.2 opened) closed
    | done connection' =>
      refine run (n := n) ?_
      rw [feed_settling.consume_append]
      refine fed.bind fun r same => ?_
      subst same
      rw [feed_settling.consume_settled ⟨connection', rfl⟩, pure_bind]
      exact .pure rfl

/-- A buffer does not fault. -/
theorem ensures_parseBuffer (all : P.Succeeds) {connection : Connection} (sound : Sound P connection)
    (buffer : List UInt8) : Ensures (parseBuffer connection buffer : Prog P _) (Sound P) := by
  intro s
  obtain ⟨last, run, sound', -⟩ := exists_run all s sound buffer
  exact (run.mono fun last' same => same ▸ sound') s

theorem ensures_initConnection (connection : Connection) : Ensures (initConnection connection : Prog P _) (Sound P) :=
  ensures_rewind.bind fun _ _ => .pure (sound_init _)

theorem Reachable.sound (all : P.Succeeds) {connection : Connection} (h : Reachable P connection) : Sound P connection := by
  induction h with
  | init run => exact (ensures_initConnection _).of_run run
  | parse h run ih => exact (ensures_parseBuffer all ih _).of_run run

/-- **A stream can be cut between two calls.** As long as neither the parser nor
the request has come to an end, two calls of `sl_main_parse_buffer` do what one
call does with both buffers, to the parser, to the request and in the requests
executed. -/
theorem parse_buffer_append (all : P.Succeeds) {connection : Connection} (reachable : Reachable P connection)
    (front back : List UInt8) :
    Ensures (parseBuffer connection front : Prog P _) fun middle =>
      middle.Open → ∃ last, Runs P middle back last ∧ Runs P connection (front ++ back) last := by
  intro s
  obtain ⟨middle, run, -, goesOn, -⟩ := exists_run all s (reachable.sound all) front
  refine (run.mono fun middle' same opened => ?_) s
  subst same
  exact goesOn opened back

/-- A new connection. -/
def Connection.fresh : Connection := { parser := .init, request := .init paramsPreallocate }

/-- The cut is inside a header. -/
theorem parse_buffer_append_header :
    Ensures (parseBuffer .fresh [1, 1, 0] : Prog Platform.ample _) fun middle =>
      middle.Open → ∃ last, Runs Platform.ample middle [1, 0, 8] last ∧
        Runs Platform.ample .fresh ([1, 1, 0] ++ [1, 0, 8]) last :=
  parse_buffer_append Platform.ample_succeeds (@Reachable.init _ .fresh _ () () rfl) [1, 1, 0] [1, 0, 8]

end Cpptrw.Main
