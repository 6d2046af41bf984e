import Cpptrw.Main.Connection
import Cpptrw.Fcgi.ParserProgress

/-!
# A connection, octet by octet

`sl_main_parse_buffer` hands the rest of its buffer to the parser, looks at what
became of it, and starts over. Here the same is done for each octet as it comes:
`feed` is a consumer in the sense of `Cpptrw.Lib.Consume`, and `agree_parseBuffer`
shows that the two compute the same. A session is `.next` while the loop may go
on and `.done` once it has been left.
-/

namespace Cpptrw.Main

open Lib Lib.Prog Text Fcgi Hashtable

variable {P : Platform}

abbrev Session := Flow Connection Connection

/-- `handleRecord` without the response. -/
def settle (connection : Connection) : Prog P Session :=
  if connection.parser.state = .error then pure (.done connection)
  else if connection.parser.state = .finished then
    connection.request.process connection.parser >>= fun request =>
      let records := connection.records ++ [connection.parser]
      if request.state = .error then pure (.done { connection with request, records })
      else if request.state = .finished then
        pure (.done { connection with request, records, executed := connection.executed ++ [request] })
      else pure (.next { connection with request, records, parser := .init })
  else pure (.next connection)

/-- A parser that has taken the first octet of a record. -/
def started (octet : UInt8) : Parser := { state := .type, messageHeader := { version := octet } }

/-- An octet that was consumed. -/
def takeOctet (connection : Connection) : Prog P (Verdict Session) :=
  settle connection >>= fun
    | .done connection => pure (.finish (.done connection))
    | .next connection => pure (.advance (.next connection))

/-- An octet that ended a record and belongs to the next one, if there is to be one. -/
def leaveOctet (octet : UInt8) (connection : Connection) : Prog P (Verdict Session) :=
  settle connection >>= fun
    | .done connection => pure (.stop (.done connection))
    | .next connection => pure (.advance (.next { connection with parser := started octet }))

/-- One octet. -/
def feed : Session → UInt8 → Prog P (Verdict Session)
  | .done connection, _ => pure (.stop (.done connection))
  | .next connection, octet => connection.parser.parseOctet octet >>= fun
    | .advance parser => takeOctet { connection with parser }
    | .finish parser => takeOctet { connection with parser }
    | .stop parser => leaveOctet octet { connection with parser }

/-- The loop has been left. -/
def Halted (session : Session) : Prop := ∃ connection, session = .done connection

theorem feed_settling : Settling (feed : Session → UInt8 → Prog P (Verdict Session)) Halted where
  absorbs := by
    intro session ⟨connection, halted⟩ octet
    rw [halted, feed]
  settles := by
    have take : ∀ connection, Returns (takeOctet connection : Prog P _) (Verdict.Settles Halted) := by
      refine fun connection => (returns_any _).bind fun session _ => ?_
      cases session with
      | next connection => exact returns_pure trivial
      | done connection => exact returns_pure ⟨connection, rfl⟩
    have leave : ∀ octet connection, Returns (leaveOctet octet connection : Prog P _) (Verdict.Settles Halted) := by
      refine fun octet connection => (returns_any _).bind fun session _ => ?_
      cases session with
      | next connection => exact returns_pure trivial
      | done connection => exact returns_pure ⟨connection, rfl⟩
    intro session octet
    cases session with
    | done connection => exact returns_pure ⟨connection, rfl⟩
    | next connection =>
      refine (returns_any _).bind fun v _ => ?_
      cases v with
      | advance parser => exact take _
      | finish parser => exact take _
      | stop parser => exact leave octet _

/-! ## The loop of `sl_main_parse_buffer` -/

theorem settle_open {connection : Connection} (more : ¬connection.parser.Settled) :
    (settle connection : Prog P _) = pure (.next connection) := by
  rw [settle, if_neg fun error => more (Or.inr error), if_neg fun finished => more (Or.inl finished)]

/-- Behind a record the parser is a new one. -/
theorem returns_settle (connection : Connection) :
    Returns (settle connection : Prog P _) fun
      | .next connection' => connection.parser.Settled → connection'.parser = .init
      | .done _ => True := by
  unfold settle
  split
  · exact returns_pure trivial
  · rename_i live
    split
    · refine (returns_any _).bind fun request _ => ?_
      split
      · exact returns_pure trivial
      · split
        · exact returns_pure trivial
        · exact returns_pure fun _ => rfl
    · rename_i more
      exact returns_pure fun settled => absurd settled (not_or.mpr ⟨more, live⟩)

/-- What comes behind a record, and behind the octets that were left. -/
def resume (octets : List UInt8) (n : Nat) : Session → Prog P (Session × Nat)
  | .done connection => pure (.done connection, n)
  | .next connection => consume feed (.next connection) (octets.drop n) >>= fun r => pure (r.1, n + r.2)

theorem resume_cons (octet : UInt8) (rest : List UInt8) (n : Nat) :
    (resume (octet :: rest) (n + 1) : Session → Prog P _) =
      fun session => resume rest n session >>= fun r => pure (r.1, r.2 + 1) := by
  funext session
  cases session with
  | done connection => rfl
  | next connection =>
    simp only [resume, List.drop_succ_cons, bind_assoc, pure_bind]
    congr 1
    funext r
    rw [Nat.add_right_comm]

/-- A new parser takes the octet that the one before it left. -/
theorem leaveOctet_eq {octet : UInt8} {connection : Connection} (settled : connection.parser.Settled) :
    (leaveOctet octet connection : Prog P _) = settle connection >>= fun
      | .done connection => pure (.stop (.done connection))
      | .next connection => feed (.next connection) octet := by
  refine (returns_settle connection).bind_congr fun session fresh => ?_
  cases session with
  | done connection => rfl
  | next connection =>
    have first : (connection.parser.parseOctet octet : Prog P _) = pure (.advance (started octet)) := by
      rw [fresh settled]
      rfl
    have more : ¬(started octet).Settled := by rintro (h | h) <;> cases h
    simp only [feed, first, pure_bind, takeOctet, @settle_open P { connection with parser := started octet } more]

/-- Behind an octet that settled the parser. -/
theorem takeOctet_goOn (connection : Connection) (octet : UInt8) (rest : List UInt8) :
    (takeOctet connection >>= Verdict.goOn feed rest : Prog P _) = settle connection >>= resume (octet :: rest) 1 := by
  rw [takeOctet, bind_assoc]
  congr 1
  funext session
  cases session with
  | done connection => rfl
  | next connection =>
    simp only [pure_bind, Verdict.goOn, resume, List.drop_succ_cons, List.drop_zero, Nat.add_comm 1]

/-- Behind an octet that the parser left. -/
theorem leaveOctet_goOn {connection : Connection} (settled : connection.parser.Settled) (octet : UInt8)
    (rest : List UInt8) :
    (leaveOctet octet connection >>= Verdict.goOn feed rest : Prog P _) = settle connection >>= resume (octet :: rest) 0 := by
  rw [leaveOctet_eq settled, bind_assoc]
  congr 1
  funext session
  cases session with
  | done connection => rfl
  | next connection =>
    simp only [resume, List.drop_zero, consume_cons, Nat.zero_add, Prod.mk.eta, bind_pure]

/-- **Feeding octets is to parse them, then to settle, and to go on behind them.** -/
theorem consume_feed (octets : List UInt8) :
    ∀ connection : Connection, octets ≠ [] ∨ ¬connection.parser.Settled →
      (consume feed (.next connection) octets : Prog P _) =
        connection.parser.parse octets >>= fun r => settle { connection with parser := r.1 } >>= resume octets r.2 := by
  induction octets with
  | nil =>
    intro connection more
    rw [Parser.parse, consume, consume, pure_bind, settle_open (more.resolve_left fun none => none rfl), pure_bind]
    rfl
  | cons octet rest ih =>
    intro connection _
    rw [Parser.parse, consume_cons, consume_cons, feed, bind_assoc, bind_assoc]
    refine (Parser.settling.settles connection.parser octet).bind_congr fun v settles => ?_
    cases v with
    | advance parser =>
      rw [Verdict.goOn, bind_assoc]
      by_cases settled : parser.Settled
      · rw [Parser.settling.consume_settled settled, pure_bind, pure_bind]
        exact takeOctet_goOn { connection with parser } octet rest
      · -- the parser asks for more, and so does the session
        have here := ih { connection with parser } (Or.inr settled)
        have open_ := @settle_open P { connection with parser } settled
        simp only [takeOctet, open_, pure_bind, Verdict.goOn, here, bind_assoc, Parser.parse, resume_cons]
    | finish parser => exact takeOctet_goOn { connection with parser } octet rest
    | stop parser => exact @leaveOctet_goOn P { connection with parser } settles octet rest

/-! ## Agreement -/

/-- The response is not looked at. -/
theorem agree_handleRecord (all : P.Succeeds) (connection : Connection) :
    Agree (handleRecord connection : Prog P _) (settle connection) := by
  unfold handleRecord settle
  split
  · exact .pure _
  · split
    · have process : Steady (connection.request.process connection.parser : Prog P _) :=
        Request.compositional_process (compositional_steady all) _ _
      refine process.bind fun request => ?_
      split
      · exact .pure _
      · split
        · exact .drop (ensures_requestExecute request) (.pure _)
        · exact .pure _
    · exact .pure _

theorem steady_settle (all : P.Succeeds) (connection : Connection) : Steady (settle connection : Prog P _) :=
  (agree_handleRecord all connection).symm.left

theorem steady_feed (all : P.Succeeds) (session : Session) (octet : UInt8) : Steady (feed session octet : Prog P _) := by
  have take : ∀ connection, Steady (takeOctet connection : Prog P _) := by
    refine fun connection => (steady_settle all connection).bind fun session => ?_
    cases session <;> exact .pure _
  have leave : ∀ connection, Steady (leaveOctet octet connection : Prog P _) := by
    refine fun connection => (steady_settle all connection).bind fun session => ?_
    cases session <;> exact .pure _
  cases session with
  | done connection => exact .pure _
  | next connection =>
    refine (Parser.compositional_parseOctet (compositional_steady all) _ _).bind fun v => ?_
    cases v with
    | advance parser => exact take _
    | finish parser => exact take _
    | stop parser => exact leave _

/-- The connection of a session. -/
def Session.connection : Session → Connection
  | .next connection => connection
  | .done connection => connection

/-- From any pass on; two passes at most for an octet, and one more if the first octet is not consumed. -/
theorem agree_parseLoop (all : P.Succeeds) (buffer : List UInt8) :
    ∀ (fuel : Nat) (progress : Progress), 1 ≤ fuel →
      2 * (buffer.length - progress.bytesParsed) + (if progress.connection.parser.state = .version then 0 else 1) ≤ fuel →
      Agree (whileLoop (parsePass buffer) fuel progress)
        (consume feed (.next progress.connection) (buffer.drop progress.bytesParsed) >>= fun r =>
          pure (Session.connection r.1) : Prog P _) := by
  intro fuel
  induction fuel with
  | zero =>
    intro progress none
    cases none
  | succ fuel ih =>
    intro progress _ enough
    obtain ⟨connection, k, previous⟩ := progress
    dsimp only at enough ⊢
    by_cases more : k < buffer.length
    · have some : buffer.drop k ≠ [] := by
        intro none
        have := List.drop_eq_nil_iff.mp none
        omega
      rw [consume_feed _ _ (Or.inl some), whileLoop, parsePass, if_pos more]
      simp only [bind_assoc]
      have values : Returns (connection.parser.parse (buffer.drop k) : Prog P _) fun r =>
          (r.2 < (buffer.drop k).length → r.1.Settled) ∧ (connection.parser.state = .version → 1 ≤ r.2) := by
        intro s r s' run
        refine ⟨(Parser.settling.returns_consume _ _ s r s' run).2, fun version => ?_⟩
        exact Parser.returns_parse_version version some s r s' run
      refine (Parser.compositional_parse (compositional_steady all) _ _).bind_of_returns values fun r hr => ?_
      obtain ⟨parser, n⟩ := r
      obtain ⟨settled, first⟩ := hr
      dsimp only at settled first ⊢
      rw [List.length_drop] at settled
      refine agree_skip_log (parsed_matching _) ?_
      have same := agree_handleRecord all { connection with parser }
      have fresh := (returns_settle (P := P) { connection with parser }).agree same.symm
      refine same.bind_of_returns fresh fun session fresh => ?_
      cases session with
      | done connection => exact .pure _
      | next connection =>
        simp only [resume, bind_assoc, pure_bind, List.drop_drop]
        refine ih ⟨connection, k + n, k + n⟩ (by omega) ?_
        dsimp only at fresh ⊢
        by_cases done : parser.Settled
        · rw [fresh done, if_pos (show Parser.init.state = .version from rfl)]
          split at enough
          · rename_i version
            have := first version
            omega
          · omega
        · have all : ¬n < buffer.length - k := fun short => done (settled short)
          split <;> omega
    · rw [List.drop_eq_nil_of_le (by omega), whileLoop, parsePass, if_neg more, consume, pure_bind, pure_bind]
      exact .pure _

/-- **`sl_main_parse_buffer` feeds the octets.** -/
theorem agree_parseBuffer (all : P.Succeeds) (connection : Connection) (buffer : List UInt8) :
    Agree (parseBuffer connection buffer : Prog P _)
      (consume feed (.next connection) buffer >>= fun r => pure (Session.connection r.1)) := by
  refine agree_parseLoop all buffer _ { connection } (by omega) ?_
  split <;> simp

end Cpptrw.Main
