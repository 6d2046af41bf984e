import Cpptrw.Fcgi.Request
import Cpptrw.Lib.Interleave

/-!
# Complete requests

Which sequences of records are a request, without reference to how they are
processed: a begin record, and behind it a stream of params records and one of
stdin records, each closed by an empty record, in any interleaving. `Accepts`
says the same of what may still come in each state of a request, and
`accepts_cons` takes one record off, as the request does.
-/

namespace Cpptrw.Fcgi

open Lib

namespace Parser

/-- A record of this type with content. -/
def Carries (r : Parser) (type : UInt8) : Prop := r.messageHeader.type = type ∧ r.messageHeader.contentLength ≠ 0

/-- A record of this type without content. -/
def Closes (r : Parser) (type : UInt8) : Prop := r.messageHeader.type = type ∧ r.messageHeader.contentLength = 0

end Parser

/-- Records of one type with content, and one without. -/
def ClosedStream (type : UInt8) (rs : List Parser) : Prop :=
  ∃ front last, rs = front ++ [last] ∧ (∀ r ∈ front, r.Carries type) ∧ last.Closes type

/-- Two closed streams, interleaved. -/
def TwoStreams (a b : UInt8) (rs : List Parser) : Prop :=
  ∃ xs ys, ClosedStream a xs ∧ ClosedStream b ys ∧ Interleaving xs ys rs

/-- A begin record, and behind it the two streams. -/
def Complete (rs : List Parser) : Prop :=
  ∃ first rest, rs = first :: rest ∧ first.messageHeader.type = typeBeginRequest ∧ TwoStreams typeParams typeStdin rest

/-! ## Streams, record by record -/

variable {a b type : UInt8} {r : Parser} {rs : List Parser}

theorem not_closedStream_nil : ¬ClosedStream type [] := by
  intro ⟨front, last, split, _⟩
  simp at split

theorem closedStream_cons :
    ClosedStream type (r :: rs) ↔ r.Carries type ∧ ClosedStream type rs ∨ r.Closes type ∧ rs = [] := by
  constructor
  · intro ⟨front, last, split, carry, close⟩
    cases front with
    | nil =>
      obtain ⟨rfl, rfl⟩ := List.cons.inj split
      exact Or.inr ⟨close, rfl⟩
    | cons x front =>
      obtain ⟨rfl, rfl⟩ := List.cons.inj split
      exact Or.inl ⟨carry r (by simp), front, last, rfl, fun r mem => carry r (List.mem_cons_of_mem _ mem), close⟩
  · intro h
    rcases h with ⟨carries, front, last, rfl, carry, close⟩ | ⟨close, rfl⟩
    · exact ⟨r :: front, last, rfl, List.forall_mem_cons.mpr ⟨carries, carry⟩, close⟩
    · exact ⟨[], r, rfl, by simp, close⟩

/-- A record of another type is not in a stream. -/
theorem not_closedStream_cons (other : r.messageHeader.type ≠ type) : ¬ClosedStream type (r :: rs) := by
  intro h
  rcases closedStream_cons.mp h with ⟨carries, -⟩ | ⟨closes, -⟩
  · exact other carries.1
  · exact other closes.1

theorem closedStream_cons_of_type (same : r.messageHeader.type = type) :
    ClosedStream type (r :: rs) ↔ if r.messageHeader.contentLength = 0 then rs = [] else ClosedStream type rs := by
  rw [closedStream_cons]
  split
  · rename_i none
    simp [Parser.Carries, Parser.Closes, same, none]
  · rename_i some
    simp [Parser.Carries, Parser.Closes, same, some]

theorem TwoStreams.swap (h : TwoStreams a b rs) : TwoStreams b a rs := by
  obtain ⟨xs, ys, hx, hy, inter⟩ := h
  exact ⟨ys, xs, hy, hx, inter.swap⟩

theorem not_twoStreams_nil : ¬TwoStreams a b [] := by
  intro ⟨xs, ys, hx, hy, inter⟩
  obtain ⟨rfl, -⟩ := inter.of_nil
  exact not_closedStream_nil hx

/-- A record of the first stream goes on with it, or leaves the second. -/
theorem twoStreams_cons (same : r.messageHeader.type = a) (other : a ≠ b) :
    TwoStreams a b (r :: rs) ↔ if r.messageHeader.contentLength = 0 then ClosedStream b rs else TwoStreams a b rs := by
  constructor
  · intro ⟨xs, ys, hx, hy, whole⟩
    rcases interleaving_cons.mp whole with ⟨xs, rfl, inter⟩ | ⟨ys, rfl, inter⟩
    · rw [closedStream_cons_of_type same] at hx
      split
      · rename_i none
        rw [if_pos none] at hx
        rw [hx, interleaving_nil_left] at inter
        rwa [inter]
      · rename_i some
        rw [if_neg some] at hx
        exact ⟨xs, ys, hx, hy, inter⟩
    · exact absurd hy (not_closedStream_cons (by rwa [same]))
  · intro h
    split at h
    · rename_i none
      refine ⟨[r], rs, ?_, h, .left ?_⟩
      · rw [closedStream_cons_of_type same, if_pos none]
      · apply interleaving_nil_left.mpr
        rfl
    · rename_i some
      obtain ⟨xs, ys, hx, hy, inter⟩ := h
      refine ⟨r :: xs, ys, ?_, hy, .left inter⟩
      rw [closedStream_cons_of_type same, if_neg some]
      exact hx

theorem not_twoStreams_cons (notA : r.messageHeader.type ≠ a) (notB : r.messageHeader.type ≠ b) :
    ¬TwoStreams a b (r :: rs) := by
  intro ⟨xs, ys, hx, hy, inter⟩
  rcases interleaving_cons.mp inter with ⟨xs, rfl, -⟩ | ⟨ys, rfl, -⟩
  · exact not_closedStream_cons notA hx
  · exact not_closedStream_cons notB hy

/-! ## States -/

/-- The state behind a record. -/
def RequestState.next (r : Parser) : RequestState → RequestState
  | .begin => if r.messageHeader.type = typeBeginRequest then .paramOrStdin else .error
  | .paramOrStdin =>
    if r.messageHeader.type = typeParams then
      if r.messageHeader.contentLength = 0 then .stdin else .paramOrStdin
    else if r.messageHeader.type = typeStdin then
      if r.messageHeader.contentLength = 0 then .param else .paramOrStdin
    else .error
  | .param =>
    if r.messageHeader.type = typeParams then
      if r.messageHeader.contentLength = 0 then .finished else .param
    else .error
  | .stdin =>
    if r.messageHeader.type = typeStdin then
      if r.messageHeader.contentLength = 0 then .finished else .stdin
    else .error
  | .finished => .error
  | .error => .error

/-- The state behind a sequence of records. -/
def RequestState.after (state : RequestState) (rs : List Parser) : RequestState := rs.foldl (fun state r => state.next r) state

/-- What may come in a state to complete the request. -/
def RequestState.Accepts : RequestState → List Parser → Prop
  | .begin, rs => Complete rs
  | .paramOrStdin, rs => TwoStreams typeParams typeStdin rs
  | .param, rs => ClosedStream typeParams rs
  | .stdin, rs => ClosedStream typeStdin rs
  | .finished, rs => rs = []
  | .error, _ => False

namespace RequestState

theorem accepts_nil (state : RequestState) : state.Accepts [] ↔ state = .finished := by
  cases state with
  | begin => simp [Accepts, Complete]
  | paramOrStdin => simp [Accepts, not_twoStreams_nil]
  | param => simp [Accepts, not_closedStream_nil]
  | stdin => simp [Accepts, not_closedStream_nil]
  | finished => simp [Accepts]
  | error => simp [Accepts]

/-- **One record.** -/
theorem accepts_cons (state : RequestState) (r : Parser) (rs : List Parser) :
    state.Accepts (r :: rs) ↔ (state.next r).Accepts rs := by
  cases state with
  | begin =>
    have split : Complete (r :: rs) ↔ r.messageHeader.type = typeBeginRequest ∧ TwoStreams typeParams typeStdin rs := by
      constructor
      · intro ⟨first, rest, same, opens, streams⟩
        obtain ⟨rfl, rfl⟩ := List.cons.inj same
        exact ⟨opens, streams⟩
      · intro ⟨opens, streams⟩
        exact ⟨r, rs, rfl, opens, streams⟩
    rw [Accepts, split, next]
    split_ifs with opens <;> simp [Accepts, opens]
  | paramOrStdin =>
    rw [Accepts, next]
    split_ifs with params none stdin none
    · rw [twoStreams_cons params (by decide), if_pos none, Accepts]
    · rw [twoStreams_cons params (by decide), if_neg none, Accepts]
    · have swap := @twoStreams_cons typeStdin typeParams r rs stdin (by decide)
      rw [if_pos none] at swap
      exact ⟨fun h => swap.mp h.swap, fun h => (swap.mpr h).swap⟩
    · have swap := @twoStreams_cons typeStdin typeParams r rs stdin (by decide)
      rw [if_neg none] at swap
      exact ⟨fun h => (swap.mp h.swap).swap, fun h => (swap.mpr h.swap).swap⟩
    · simp [Accepts, not_twoStreams_cons params stdin]
  | param =>
    rw [Accepts, next]
    split_ifs with params none
    · rw [closedStream_cons_of_type params, if_pos none, Accepts]
    · rw [closedStream_cons_of_type params, if_neg none, Accepts]
    · simp [Accepts, not_closedStream_cons params]
  | stdin =>
    rw [Accepts, next]
    split_ifs with stdin none
    · rw [closedStream_cons_of_type stdin, if_pos none, Accepts]
    · rw [closedStream_cons_of_type stdin, if_neg none, Accepts]
    · simp [Accepts, not_closedStream_cons stdin]
  | finished => simp [Accepts, next]
  | error => simp [Accepts, next]

theorem accepts_append (state : RequestState) (rs more : List Parser) :
    state.Accepts (rs ++ more) ↔ (state.after rs).Accepts more := by
  induction rs generalizing state with
  | nil => rfl
  | cons r rs ih =>
    rw [List.cons_append, accepts_cons, ih]
    rfl

/-- **A sequence completes a request when it leads to the finished state.** -/
theorem complete_iff (rs : List Parser) : Complete rs ↔ RequestState.begin.after rs = .finished := by
  rw [← accepts_nil, ← accepts_append, List.append_nil, Accepts]

/-- The empty record of a type. -/
def closing (type : UInt8) : Parser := { state := .finished, messageHeader := { version := version1, type } }

/-- Three empty records at most complete a request that is not an error. -/
theorem exists_accepts {state : RequestState} (live : state ≠ .error) :
    ∃ types : List UInt8, state.Accepts (types.map closing) := by
  have step : ∀ {state state' : RequestState} (type : UInt8), state.next (closing type) = state' →
      (∃ types : List UInt8, state'.Accepts (types.map closing)) → ∃ types : List UInt8, state.Accepts (types.map closing) := by
    intro state state' type here ⟨types, accepts⟩
    refine ⟨type :: types, ?_⟩
    rw [List.map_cons, accepts_cons, here]
    exact accepts
  have finished : ∃ types : List UInt8, RequestState.finished.Accepts (types.map closing) := ⟨[], rfl⟩
  have stdin := @step .stdin _ typeStdin rfl finished
  have two := @step .paramOrStdin _ typeParams rfl stdin
  cases state with
  | begin => exact step typeBeginRequest rfl two
  | paramOrStdin => exact two
  | param => exact step typeParams rfl finished
  | stdin => exact stdin
  | finished => exact finished
  | error => exact absurd rfl live

theorem next_ne_begin (state : RequestState) (r : Parser) : state.next r ≠ .begin := by
  unfold next
  split <;> (try split_ifs) <;> nofun

theorem after_snoc (state : RequestState) (rs : List Parser) (r : Parser) :
    state.after (rs ++ [r]) = (state.after rs).next r := by
  rw [after, List.foldl_append]
  rfl

theorem eq_nil_of_after {rs : List Parser} (h : RequestState.begin.after rs = .begin) : rs = [] := by
  rcases List.eq_nil_or_concat rs with none | ⟨rs', r, rfl⟩
  · exact none
  · rw [List.concat_eq_append, after_snoc] at h
    exact absurd h (next_ne_begin _ _)

end RequestState

end Cpptrw.Fcgi
