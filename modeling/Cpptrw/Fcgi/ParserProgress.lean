import Cpptrw.Fcgi.Record
import Cpptrw.Lib.Loop
import Cpptrw.Lib.Reach

/-!
# The parser makes progress

The inner loops of the parser look at one octet again and again while the state
changes, from a name to a value and from there to whatever comes behind it. So
they are left after three passes from any state of the parser. A parser that
calls of `sl_fcgi_parser_parse` lead to does not fault either, and it leaves
octets behind only when it has finished or is an error.
-/

namespace Cpptrw.Fcgi

open Lib Lib.Prog Text

variable {P : Platform}

/-! ## The inner loops, from any state -/

/-- The fault is not a loop that goes on. -/
def Ended (e : Fault) : Prop := e ≠ .diverged

theorem Parser.last_ended (p : Parser) : ∀ e, p.last = .error e → Ended e := by
  unfold Parser.last
  split <;> rintro e ⟨⟩
  exact nofun

theorem storeAt_ended (region : Option Buffer) (i : Nat) (octet : UInt8) : ∀ e, storeAt region i octet = .error e → Ended e := by
  unfold storeAt Buffer.store
  split
  · rintro e ⟨⟩
    exact nofun
  · split <;> rintro e ⟨⟩
    exact nofun

theorem read_ended (b : Buffer) (n : Nat) : ∀ e, Buffer.read b n = .error e → Ended e := by
  fun_induction Buffer.read b n with
  | case1 => nofun
  | case2 =>
    rintro e ⟨⟩
    exact nofun
  | case3 =>
    rintro e ⟨⟩
    exact nofun
  | case4 octet b n ih =>
    intro e failed
    cases rest : Buffer.read b n with
    | ok xs =>
      rw [rest] at failed
      cases failed
    | error e' =>
      rw [rest] at failed
      cases failed
      exact ih e rest

theorem readAt_ended (region : Option Buffer) (n : Nat) : ∀ e, readAt region n = .error e → Ended e := by
  unfold readAt
  split
  · rintro e ⟨⟩
    exact nofun
  · exact read_ended _ n

/-- The passes that the inner loops can still make behind this one. -/
def passesLeft : ParserState → Nat
  | .paramNameData => 2
  | .paramValueData => 1
  | .stdinData => 1
  | _ => 0

namespace Parser

/-- A pass ends the loop, or leads to a state that is closer to its end. -/
abbrev Descends (p : Parser) : Flow Parser Parser → Prop :=
  Flow.Descends (fun _ => True) (fun p => passesLeft p.state) (fun _ => True) p

theorem confined_done {p q : Parser} : Confined Ended (pure (.done q) : Prog P _) p.Descends :=
  confined_pure trivial

theorem confined_next {p q : Parser} (closer : passesLeft q.state < passesLeft p.state) :
    Confined Ended (pure (.next q) : Prog P _) p.Descends :=
  confined_pure ⟨trivial, closer⟩

/-- Asking for a region that is missing. -/
theorem confined_asked {α : Type} {n : Nat} {met refused : α} :
    Confined Ended (allocate n >>= fun b => if b then pure met else pure refused : Prog P α) fun _ => True :=
  .allocate (confined_pure trivial) (confined_pure trivial)

theorem confined_paramNameData (octet : UInt8) {p : Parser} (here : p.state = .paramNameData) :
    Confined Ended (p.paramNameData octet : Prog P _) p.Descends := by
  have opened : Confined Ended (p.openName : Prog P _) fun _ => True := by
    refine (confined_lift p.last_ended).bind fun param _ => ?_
    split
    · exact confined_asked
    · exact confined_pure trivial
  refine opened.bind fun opened _ => ?_
  cases opened with
  | none => exact confined_done
  | some q =>
    refine (confined_lift q.last_ended).bind fun param _ => ?_
    split
    · refine (confined_lift (storeAt_ended _ _ _)).bind fun name _ => ?_
      apply confined_next
      simp [here, passesLeft]
    · exact (confined_lift (storeAt_ended _ _ _)).bind fun name _ => confined_done

theorem confined_afterPair {p : Parser} (one : passesLeft p.state = 1) (q : Parser) :
    Confined Ended (pure (afterPair q) : Prog P _) p.Descends := by
  unfold afterPair
  split
  · split
    · exact confined_done
    · exact confined_next (one.symm ▸ Nat.one_pos)
  · exact confined_next (one.symm ▸ Nat.one_pos)

theorem confined_afterStdin {p : Parser} (one : passesLeft p.state = 1) (q : Parser) :
    Confined Ended (pure (afterStdin q) : Prog P _) p.Descends := by
  unfold afterStdin
  split <;> exact confined_next (one.symm ▸ Nat.one_pos)

theorem confined_paramValueData (octet : UInt8) {p : Parser} (here : p.state = .paramValueData) :
    Confined Ended (p.paramValueData octet : Prog P _) p.Descends := by
  have opened : Confined Ended (p.openValue : Prog P _) fun _ => True := by
    refine (confined_lift p.last_ended).bind fun param _ => ?_
    split
    · exact confined_asked
    · exact confined_pure trivial
  refine opened.bind fun opened _ => ?_
  cases opened with
  | none => exact confined_done
  | some q =>
    refine (confined_lift q.last_ended).bind fun param _ => ?_
    split
    · refine (confined_lift (storeAt_ended _ _ _)).bind fun value _ => ?_
      refine (confined_lift (readAt_ended _ _)).bind fun name _ => (confined_lift (read_ended _ _)).bind fun octets _ => ?_
      refine (ensures_log (parameter_matching name octets)).confined.bind fun _ _ => ?_
      exact confined_afterPair (by rw [here]; rfl) _
    · exact (confined_lift (storeAt_ended _ _ _)).bind fun value _ => confined_done

theorem confined_paramsSwitch (octet : UInt8) (p : Parser) : Confined Ended (p.paramsSwitch octet : Prog P _) p.Descends := by
  have length : ∀ shift next, Confined Ended (p.paramNameLength octet shift next : Prog P _) p.Descends :=
    fun shift next => (confined_lift p.last_ended).bind fun param _ => confined_done
  have length' : ∀ shift next, Confined Ended (p.paramValueLength octet shift next : Prog P _) p.Descends :=
    fun shift next => (confined_lift p.last_ended).bind fun param _ => confined_done
  unfold paramsSwitch
  cases here : p.state with
  | paramNameLengthB3 =>
    refine .allocate ?_ confined_done
    rw [if_pos rfl]
    dsimp only
    split <;> exact confined_done
  | paramValueLengthB3 =>
    refine (confined_lift p.last_ended).bind fun param _ => ?_
    split <;> exact confined_done
  | paramNameData => exact confined_paramNameData octet here
  | paramValueData => exact confined_paramValueData octet here
  | paramNameLengthB2 | paramNameLengthB1 | paramNameLengthB0 => exact length _ _
  | paramValueLengthB2 | paramValueLengthB1 | paramValueLengthB0 => exact length' _ _
  | _ => exact confined_done

theorem confined_stdinData (octet : UInt8) {p : Parser} (here : p.state = .stdinData) :
    Confined Ended (p.stdinData octet : Prog P _) p.Descends := by
  have opened : Confined Ended (p.openStdin : Prog P _) fun _ => True := by
    unfold openStdin
    split
    · exact confined_asked
    · exact confined_pure trivial
  refine opened.bind fun opened _ => ?_
  cases opened with
  | none => exact confined_done
  | some q =>
    dsimp only
    split
    · refine (confined_lift (storeAt_ended _ _ _)).bind fun data _ => (confined_lift (read_ended _ _)).bind fun octets _ => ?_
      refine (ensures_log (stdin_matching octets)).confined.bind fun _ _ => ?_
      exact confined_afterStdin (by rw [here]; rfl) _
    · exact (confined_lift (storeAt_ended _ _ _)).bind fun data _ => confined_done

theorem confined_stdinSwitch (octet : UInt8) (p : Parser) : Confined Ended (p.stdinSwitch octet : Prog P _) p.Descends := by
  unfold stdinSwitch
  cases here : p.state with
  | stdinData => exact confined_stdinData octet here
  | _ => exact confined_done

theorem passesLeft_le (state : ParserState) : passesLeft state < 4 := by
  cases state <;> decide

/-- **The inner loops are left**, from any state and with any octet. -/
theorem confined_parseParams (p : Parser) (octet : UInt8) : Confined Ended (p.parseParams octet : Prog P _) fun _ => True :=
  confined_whileLoop _ _ (fun q _ => confined_paramsSwitch octet q) 4 p trivial (passesLeft_le p.state)

theorem confined_parseStdin (p : Parser) (octet : UInt8) : Confined Ended (p.parseStdin octet : Prog P _) fun _ => True :=
  confined_whileLoop _ _ (fun q _ => confined_stdinSwitch octet q) 4 p trivial (passesLeft_le p.state)

end Parser

/-! ## Reachable parsers -/

/-- The parsers that calls of `sl_fcgi_parser_parse` lead to. -/
abbrev ReachedParser (P : Platform) : Parser → Prop :=
  Reached (· = .init) fun p p' => ∃ (buffer : List UInt8) (s s' : P.State) (n : Nat), p.parse buffer s = .ok ((p', n), s')

/-- A call, from a parser that has consumed a stream. -/
theorem At.ensures_parse {seen : List UInt8} {p : Parser} (h : At P seen p) (buffer : List UInt8) :
    Ensures (p.parse buffer : Prog P _) fun r =>
      r.2 ≤ buffer.length ∧ At P (seen ++ buffer.take r.2) r.1 ∧ (r.2 < buffer.length → r.1.Settled) :=
  Parser.settling.ensures_consume at_step buffer seen p h

theorem ReachedParser.at {p : Parser} (h : ReachedParser P p) : ∃ seen, At P seen p := by
  induction h with
  | first begins =>
    rw [begins]
    exact ⟨[], .header (show 0 < 8 by decide)⟩
  | step before call ih =>
    obtain ⟨seen, here⟩ := ih
    obtain ⟨buffer, s, s', n, run⟩ := call
    obtain ⟨-, there, -⟩ := (here.ensures_parse buffer).of_run run
    exact ⟨_, there⟩

/-- The inner loops return, whatever the state of the parser. -/
theorem At.ensures_parseParams {seen : List UInt8} {p : Parser} (h : At P seen p) (octet : UInt8) :
    Ensures (p.parseParams octet : Prog P _) fun _ => True := by
  have step := at_step seen p octet h
  have other (other : p.paramsSwitch octet = (pure (.done { p with state := .error }) : Prog P _)) :
      Ensures (p.parseParams octet : Prog P _) fun _ => True := by
    refine ensures_pass ?_
    rw [other]
    exact .pure trivial
  cases here : p.state with
  | paramNameLengthB3 | paramNameLengthB2 | paramNameLengthB1 | paramNameLengthB0
  | paramValueLengthB3 | paramValueLengthB2 | paramValueLengthB1 | paramValueLengthB0
  | paramNameData | paramValueData | paramPadding =>
    simp only [Parser.parseOctet, here] at step
    exact step.of_bind_pure.mono fun _ _ => trivial
  | _ => exact other (by rw [Parser.paramsSwitch, here])

theorem At.ensures_parseStdin {seen : List UInt8} {p : Parser} (h : At P seen p) (octet : UInt8) :
    Ensures (p.parseStdin octet : Prog P _) fun _ => True := by
  have step := at_step seen p octet h
  have other (other : p.stdinSwitch octet = (pure (.done { p with state := .error }) : Prog P _)) :
      Ensures (p.parseStdin octet : Prog P _) fun _ => True := by
    refine ensures_pass ?_
    rw [other]
    exact .pure trivial
  cases here : p.state with
  | stdinData | stdinPadding =>
    simp only [Parser.parseOctet, here] at step
    exact step.of_bind_pure.mono fun _ _ => trivial
  | _ => exact other (by rw [Parser.stdinSwitch, here])

/-- In front of a record the parser takes an octet. -/
theorem Parser.returns_parse_version {p : Parser} (fresh : p.state = .version) {buffer : List UInt8} (some : buffer ≠ []) :
    Returns (p.parse buffer : Prog P _) fun r => 1 ≤ r.2 := by
  obtain ⟨octet, rest, rfl⟩ := List.exists_cons_of_ne_nil some
  apply returns_consume_advance
  rw [parseOctet, fresh]

end Cpptrw.Fcgi
