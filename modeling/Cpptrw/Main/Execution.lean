import Cpptrw.Fcgi.RequestStep
import Cpptrw.Main.Session

/-!
# When a request is executed

What any number of buffers does to the histories of a connection, on any
platform: memory may be refused and the response may fail to be sent. A
connection is `Waiting` until its parser or its request comes to an end, and is
`Closed` from then on. The one call of `sl_main_request_execute` is made on the
way from the one to the other, and only behind a complete sequence of records.
-/

namespace Cpptrw.Main

open Lib Lib.Prog Text Fcgi Hashtable

variable {P : Platform}

/-- The request goes on. -/
def Live (request : Request) : Prop := request.state ≠ .finished ∧ request.state ≠ .error

/-- The request is where its records lead, which is not an end. -/
structure Waiting (connection : Connection) : Prop where
  live : Live connection.request
  parser : connection.parser.state ≠ .error
  state : connection.request.state = RequestState.begin.after connection.records

/-- The parser is in error, or the request has come to its end behind a record that is still there. -/
def Closed (connection : Connection) : Prop :=
  connection.parser.state = .error ∨
    connection.parser.state = .finished ∧ (connection.request.state = .finished ∨ connection.request.state = .error)

/-- What was executed on the way from `before` to `after`. -/
def ExecutesComplete (before after : Connection) : Prop :=
  after.executed = before.executed ∨
    ∃ request, after.executed = before.executed ++ [request] ∧ Complete after.records

/-! ## One record -/

/-- Behind the parser, while the request goes on. -/
theorem returns_handleRecord {connection : Connection} (live : Live connection.request)
    (state : connection.request.state = RequestState.begin.after connection.records) :
    Returns (handleRecord connection : Prog P _) fun
      | .next connection' => Waiting connection' ∧ connection'.executed = connection.executed
      | .done connection' => Closed connection' ∧ ExecutesComplete connection connection' := by
  unfold handleRecord
  split
  · rename_i error
    exact returns_pure ⟨Or.inl error, Or.inl rfl⟩
  · rename_i ok
    split
    · rename_i finished
      refine (returns_process connection.request finished).bind fun request outcome => ?_
      have led := outcome.state
      dsimp only
      split
      · rename_i error
        exact returns_pure ⟨Or.inr ⟨finished, Or.inr error⟩, Or.inl rfl⟩
      · rename_i fine
        have after : request.state = RequestState.begin.after (connection.records ++ [connection.parser]) := by
          rw [RequestState.after_snoc, ← state]
          exact led.resolve_right fine
        split
        · rename_i complete
          refine (returns_any _).bind fun _ _ => returns_pure ⟨Or.inr ⟨finished, Or.inl complete⟩, Or.inr ⟨request, rfl, ?_⟩⟩
          exact (RequestState.complete_iff _).mpr (after.symm.trans complete)
        · rename_i incomplete
          exact returns_pure ⟨⟨⟨incomplete, fine⟩, nofun, after⟩, rfl⟩
    · exact returns_pure ⟨⟨live, ok, state⟩, rfl⟩

/-- Behind the parser, once the connection is closed. -/
theorem returns_handleRecord_closed {connection : Connection} (closed : Closed connection) :
    Returns (handleRecord connection : Prog P _) fun
      | .next _ => False
      | .done connection' => Closed connection' ∧ connection'.executed = connection.executed := by
  unfold handleRecord
  split
  · exact returns_pure ⟨closed, rfl⟩
  · rename_i ok
    obtain ⟨finished, ended⟩ := closed.resolve_left ok
    rw [if_pos finished]
    refine (returns_process connection.request finished).bind fun request outcome => ?_
    have led := outcome.state
    have error : request.state = .error := by
      rcases ended with ended | ended
      · simpa [ended, RequestState.next] using led
      · simpa [ended, RequestState.next] using led
    rw [if_pos error]
    exact returns_pure ⟨Or.inr ⟨finished, Or.inr error⟩, rfl⟩

/-! ## One buffer -/

/-- **A buffer for a connection that waits.** -/
theorem returns_parseBuffer {connection : Connection} (waiting : Waiting connection) (buffer : List UInt8) :
    Returns (parseBuffer connection buffer : Prog P _) fun connection' =>
      Waiting connection' ∧ connection'.executed = connection.executed ∨
        Closed connection' ∧ ExecutesComplete connection connection' := by
  refine returns_whileLoop (fun progress : Progress =>
    Waiting progress.connection ∧ progress.connection.executed = connection.executed) ?_ _ _ ⟨waiting, rfl⟩
  intro progress ⟨waits, same⟩
  unfold parsePass
  split
  · refine (returns_any _).bind fun r _ => (returns_any _).bind fun _ _ => ?_
    have handled := @returns_handleRecord P { progress.connection with parser := r.1 } waits.live waits.state
    refine handled.bind fun session led => ?_
    cases session with
    | next connection' => exact returns_pure ⟨led.1, led.2.trans same⟩
    | done connection' =>
      refine returns_pure (Or.inr ⟨led.1, ?_⟩)
      unfold ExecutesComplete at led ⊢
      rw [← same]
      exact led.2
  · exact returns_pure (Or.inl ⟨waits, same⟩)

/-- **A buffer for a connection that is closed.** -/
theorem returns_parseBuffer_closed {connection : Connection} (closed : Closed connection) (buffer : List UInt8) :
    Returns (parseBuffer connection buffer : Prog P _) fun connection' =>
      Closed connection' ∧ connection'.executed = connection.executed := by
  refine returns_whileLoop (fun progress : Progress => progress.connection = connection) ?_ _ _ rfl
  intro progress here
  have settled : connection.parser.Settled := by
    rcases closed with error | ⟨finished, -⟩
    · exact Or.inr error
    · exact Or.inl finished
  unfold parsePass
  rw [here]
  split
  · rw [Parser.parse, Parser.settling.consume_settled settled, pure_bind]
    refine (returns_any _).bind fun _ _ => ?_
    refine (returns_handleRecord_closed (P := P) closed).bind fun session led => ?_
    cases session with
    | next connection' => exact led.elim
    | done connection' => exact returns_pure led
  · exact returns_pure ⟨closed, rfl⟩

end Cpptrw.Main
