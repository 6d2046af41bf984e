import Cpptrw.Main.ResponseStream

/-!
# A response that is taken in part

The socket does not block, and `writev` takes as many octets as there is room
for. `sl_main_request_send_response` looks for an error only, so what is not
taken is not sent.
-/

namespace Cpptrw.Main

open Lib Lib.Prog Platform Text Fcgi

variable {P : Platform}

/-- The run from a state returns, and says whether the kernel took all of these octets. -/
def Reports (m : Prog P.accepting Bool) (s : P.accepting.State) (octets : List UInt8) : Prop :=
  ∃ sent s', m s = .ok (sent, s') ∧ (sent = true ↔ accepted s' = accepted s ++ octets)

/-- The answer is an error, or all of these octets are taken. -/
def AllOrNothing (answer : Option Nat) (octets : List UInt8) : Prop := ∀ count, answer = some count → octets.length ≤ count

/-- What is sent, and what is returned. -/
theorem sendResponse_run (request : Request) (buffer : List UInt8) (length : UInt16) (s : P.accepting.State) :
    ∃ s', (sendResponse request buffer length : Prog P.accepting _) s =
        .ok ((P.writev s.1 (responseBuffers request.requestId buffer length)).1.isSome, s') ∧
      accepted s' = accepted s ++
        taken (P.writev s.1 (responseBuffers request.requestId buffer length)).1 (responseBuffers request.requestId buffer length) := by
  obtain ⟨answer, s', run, same, after⟩ : ∃ answer s',
      (writev (responseBuffers request.requestId buffer length) : Prog P.accepting _) s = .ok (answer, s') ∧
        answer = (P.writev s.1 (responseBuffers request.requestId buffer length)).1 ∧
        accepted s' = accepted s ++ taken answer (responseBuffers request.requestId buffer length) := ⟨_, _, rfl, rfl, rfl⟩
  rw [sendResponse_eq, bind_apply, run, ← same]
  cases answer with
  | none => exact ⟨s', rfl, after⟩
  | some count =>
    obtain ⟨_, s'', logged, -⟩ := (ensures_log (P := P.accepting) (sent_matching (UInt64.ofNat count))) s'
    have kept := compositional_log compositional_accepted sentFormat [.number (UInt64.ofNat count)] s' _ s'' logged
    refine ⟨s'', ?_, kept.trans after⟩
    dsimp only
    rw [bind_apply, logged]
    rfl

/-- **A response that is reported as sent has been sent** if and only if `writev` fails or takes all of
the five buffers. -/
theorem response_sent_iff (request : Request) (buffer : List UInt8) (length : UInt16) (s : P.accepting.State) :
    Reports (sendResponse request buffer length : Prog P.accepting _) s (responseBuffers request.requestId buffer length).flatten ↔
      AllOrNothing (P.writev s.1 (responseBuffers request.requestId buffer length)).1
        (responseBuffers request.requestId buffer length).flatten := by
  obtain ⟨s', run, after⟩ := sendResponse_run request buffer length s
  have some_octets : (responseBuffers request.requestId buffer length).flatten ≠ [] := by
    simp [responseBuffers, headerOctets]
  unfold Reports
  rw [run]
  cases answer : (P.writev s.1 (responseBuffers request.requestId buffer length)).1 with
  | none =>
    rw [answer, taken, List.append_nil] at after
    refine iff_of_true ⟨_, s', rfl, ?_⟩ fun count here => absurd here (Option.some_ne_none _).symm
    rw [after]
    simpa using some_octets
  | some count =>
    rw [answer, taken] at after
    constructor
    · rintro ⟨sent, s'', same, all⟩ count' here
      cases here
      cases same
      have whole := all.mp rfl
      rw [after, List.append_cancel_left_eq, List.take_eq_self_iff] at whole
      exact whole
    · intro all
      refine ⟨_, s', rfl, ?_⟩
      rw [after, List.take_of_length_le (all count rfl)]
      simp

/-- The platform whose kernel takes ten octets and no more. -/
def tenOctets : Platform := { Platform.ample with writev := fun _ _ => (some 10, ()) }

/-- Of a response of three octets ten octets are sent, in the middle of the second buffer, and it is
reported as sent. -/
theorem short_write_reported :
    ¬Reports (sendResponse requestOne (Text.octetsOf "OK\n") 3 : Prog tenOctets.accepting _) (@untaken tenOctets ())
        (responseBuffers requestOne.requestId (Text.octetsOf "OK\n") 3).flatten := by
  rintro ⟨sent, s'', run, reported⟩
  obtain ⟨s', run', after⟩ := sendResponse_run (P := tenOctets) requestOne (Text.octetsOf "OK\n") 3 (@untaken tenOctets ())
  cases run'.symm.trans run
  have whole := reported.mp rfl
  rw [after] at whole
  exact absurd whole (by decide)

end Cpptrw.Main
