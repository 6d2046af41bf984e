import Cpptrw.Fcgi.RequestRun
import Cpptrw.Lib.Loop

/-!
# One record, on any platform

`Outcome` lists what `sl_fcgi_request_process` can do with a finished record,
whether or not there is memory. Behind the begin record it does not look at the
id of a record (`process_relabelled`), so records of other requests are taken
like the request's own.
-/

namespace Cpptrw.Fcgi

open Lib Lib.Prog Text Hashtable

variable {P : Platform}

theorem returns_appendParam (parameters : List MsgParam) :
    ∀ request : Request, Returns (request.appendParam parameters : Prog P _) fun request' =>
      ∃ parameters, request' = { request with parameters } := by
  induction parameters with
  | nil => exact fun request => returns_pure ⟨request.parameters, rfl⟩
  | cons parameter next ih =>
    intro request
    refine (returns_any _).bind fun nameOctets _ => (returns_any _).bind fun name _ => ?_
    refine (returns_any _).bind fun valueOctets _ => (returns_any _).bind fun value _ => ?_
    exact (returns_any _).bind fun r _ => ih { request with parameters := r.2 }

theorem returns_appendStdin (request : Request) (parser : Parser) :
    Returns (request.appendStdin parser : Prog P _) fun request' =>
      (∃ stdin, request' = { request with stdin }) ∨ request' = { request with state := .error } := by
  unfold Request.appendStdin
  split
  · exact returns_pure (Or.inl ⟨request.stdin, rfl⟩)
  · refine (returns_any _).bind fun data _ => (returns_any _).bind fun stdin _ => ?_
    cases stdin with
    | none => exact returns_pure (Or.inr rfl)
    | some stdin => exact returns_pure (Or.inl ⟨stdin, rfl⟩)

/-- What a finished record does to a request: it is refused, or is the begin
record, or leads to the next state. -/
inductive Outcome (request : Request) (parser : Parser) : Request → Prop
  | refused : Outcome request parser { request with state := .error }
  | begun (first : request.state = .begin) (type : parser.messageHeader.type = typeBeginRequest) :
      Outcome request parser { request with
        flags := parser.beginMessage.flags
        requestId := parser.messageHeader.requestId
        state := .paramOrStdin }
  | taken (later : request.state ≠ .begin) (parameters : Table (Option SlString)) (stdin : SlString) :
      Outcome request parser { request with state := request.state.next parser, parameters, stdin }

/-- A record that closes a stream, or one that appends to it. -/
theorem Outcome.leave {request : Request} {parser : Parser} {state : RequestState} (later : request.state ≠ .begin)
    (next : request.state.next parser = state) : Outcome request parser { request with state } := by
  rw [← next]
  exact .taken later request.parameters request.stdin

theorem Outcome.stay {request : Request} {parser : Parser} (later : request.state ≠ .begin)
    (next : request.state.next parser = request.state) (parameters : Table (Option SlString)) (stdin : SlString) :
    Outcome request parser { request with parameters, stdin } := by
  have taken := @Outcome.taken request parser later parameters stdin
  rwa [next] at taken

theorem returns_process (request : Request) {parser : Parser} (finished : parser.state = .finished) :
    Returns (request.process parser : Prog P _) (Outcome request parser) := by
  have params (later : request.state ≠ .begin) (next : request.state.next parser = request.state) :
      Returns (request.appendParam parser.params : Prog P _) (Outcome request parser) := by
    refine (returns_appendParam parser.params request).mono fun request' ⟨parameters, same⟩ => ?_
    rw [same]
    exact .stay later next parameters request.stdin
  have stdin (later : request.state ≠ .begin) (next : request.state.next parser = request.state) :
      Returns (request.appendStdin parser : Prog P _) (Outcome request parser) := by
    refine (returns_appendStdin request parser).mono fun request' led => ?_
    rcases led with ⟨stdin, same⟩ | same
    · rw [same]
      exact .stay later next request.parameters stdin
    · rw [same]
      exact .refused
  unfold Request.process
  dsimp only
  rw [if_neg (not_not.mpr finished)]
  cases here : request.state with
  | begin =>
    dsimp only
    split_ifs with other
    · exact returns_pure .refused
    · exact returns_pure (.begun here (not_not.mp other))
  | paramOrStdin =>
    have later : request.state ≠ .begin := by rw [here]; decide
    dsimp only
    split_ifs with type empty type' empty
    · exact returns_pure (.leave later (by rw [here, RequestState.next, if_pos type, if_pos empty]))
    · exact params later (by rw [here, RequestState.next, if_pos type, if_neg empty])
    · exact returns_pure (.leave later (by rw [here, RequestState.next, if_neg type, if_pos type', if_pos empty]))
    · exact stdin later (by rw [here, RequestState.next, if_neg type, if_pos type', if_neg empty])
    · exact returns_pure .refused
  | param =>
    have later : request.state ≠ .begin := by rw [here]; decide
    dsimp only
    split_ifs with other empty
    · exact returns_pure .refused
    · exact returns_pure (.leave later (by rw [here, RequestState.next, if_pos (not_not.mp other), if_pos empty]))
    · exact params later (by rw [here, RequestState.next, if_pos (not_not.mp other), if_neg empty])
  | stdin =>
    have later : request.state ≠ .begin := by rw [here]; decide
    dsimp only
    split_ifs with other empty
    · exact returns_pure .refused
    · exact returns_pure (.leave later (by rw [here, RequestState.next, if_pos (not_not.mp other), if_pos empty]))
    · exact stdin later (by rw [here, RequestState.next, if_pos (not_not.mp other), if_neg empty])
  | finished => exact returns_pure .refused
  | error =>
    have later : request.state ≠ .begin := by rw [here]; decide
    have same := Outcome.stay later (show request.state.next parser = request.state by rw [here]; rfl)
      request.parameters request.stdin
    exact returns_pure same

/-- The record was taken, or the request is an error. -/
theorem Outcome.state {request request' : Request} {parser : Parser} (h : Outcome request parser request') :
    request'.state = request.state.next parser ∨ request'.state = .error := by
  cases h with
  | refused => exact Or.inr rfl
  | begun first type => exact Or.inl (by rw [first, RequestState.next, if_pos type])
  | taken later parameters stdin => exact Or.inl rfl

/-- The id is that of the begin record. -/
theorem Outcome.requestId {request request' : Request} {parser : Parser} (h : Outcome request parser request')
    (begun : request.state ≠ .begin) : request'.state ≠ .begin ∧ request'.requestId = request.requestId := by
  cases h with
  | refused => exact ⟨nofun, rfl⟩
  | begun first type => exact absurd first begun
  | taken later parameters stdin => exact ⟨RequestState.next_ne_begin _ _, rfl⟩

/-! ## Faults -/

/-- The name of a parameter is dereferenced, and there was no memory for it. -/
def NullName (P : Platform) (e : Fault) : Prop := e = .nullPointer ∧ ¬P.Succeeds

/-- A key that is `NULL`: the table is as it was, up to its array, or the key is hashed. -/
theorem confined_set_null (refused : ¬P.Succeeds) {V : Type} {t : Table V} {assignments : List (List UInt8 × V)}
    (h : Refines t assignments) (value : V) :
    Confined (NullName P) (Hashtable.set t none value : Prog P _) fun r => Refines r.2 assignments := by
  unfold Hashtable.set
  refine (ensures_provide h).confined.bind ?_
  rintro ⟨allocated, t'⟩ ⟨-, -, h', -⟩
  cases allocated with
  | true => exact confined_fault ⟨rfl, refused⟩
  | false => exact confined_pure h'

/-- The parameters are a map. -/
def Tabled (request : Request) : Prop := ∃ assignments, Refines request.parameters assignments

theorem confined_appendParam (qs : List Pair) :
    ∀ {request : Request}, Tabled request → Confined (NullName P) (request.appendParam (qs.map Pair.stored) : Prog P _) Tabled := by
  induction qs with
  | nil => exact fun h => confined_pure h
  | cons q qs ih =>
    intro request h
    obtain ⟨assignments, refines⟩ := h
    rw [List.map_cons, Request.appendParam]
    simp only [Pair.stored, readAt, read_terminated, lift_ok, pure_bind]
    refine (SlString.ensures_createFromBuffer q.name q.name.length).confined.bind fun name made => ?_
    refine (SlString.ensures_createFromBuffer q.value q.value.length).confined.bind fun value _ => ?_
    cases name with
    | none => exact (confined_set_null made refines value).bind fun r kept => ih ⟨_, kept⟩
    | some name =>
      refine (set_outcome refines name.octets value).confined.bind fun r outcome => ih ?_
      rcases outcome.kept with kept | kept
      · exact ⟨_, kept⟩
      · exact ⟨_, kept⟩

theorem ensures_appendStdin_tabled {r : Parser} (record : Decoded r) {request : Request} (h : Tabled request) :
    Ensures (request.appendStdin r : Prog P _) Tabled := by
  unfold Request.appendStdin
  rcases record.stdin with none | ⟨xs, some⟩
  · rw [none, if_pos rfl]
    exact .pure h
  · rw [some]
    split
    · exact .pure h
    · simp only [readAt, read_terminated, lift_ok, pure_bind]
      refine (SlString.ensures_appendWithBuffer request.stdin xs).bind fun stdin _ => ?_
      cases stdin with
      | none => exact .pure h
      | some stdin => exact .pure h

/-- **The only fault** is a name that is `NULL`. -/
theorem confined_process {r : Parser} (record : Decoded r) {request : Request} (h : Tabled request) :
    Confined (NullName P) (request.process r : Prog P _) Tabled := by
  obtain ⟨qs, params⟩ := record.params
  have unchanged : ∀ {request' : Request}, request'.parameters = request.parameters →
      Confined (NullName P) (pure request' : Prog P _) Tabled := by
    intro request' same
    apply confined_pure
    rw [Tabled, same]
    exact h
  have appended : Confined (NullName P) (request.appendParam r.params : Prog P _) Tabled := by
    rw [params]
    exact confined_appendParam qs h
  have stdin : Confined (NullName P) (request.appendStdin r : Prog P _) Tabled :=
    (ensures_appendStdin_tabled record h).confined
  unfold Request.process
  dsimp only
  rw [if_neg (not_not.mpr record.finished)]
  cases request.state with
  | begin =>
    dsimp only
    split_ifs <;> exact unchanged rfl
  | paramOrStdin =>
    dsimp only
    split_ifs
    · exact unchanged rfl
    · exact appended
    · exact unchanged rfl
    · exact stdin
    · exact unchanged rfl
  | param =>
    dsimp only
    split_ifs
    · exact unchanged rfl
    · exact unchanged rfl
    · exact appended
  | stdin =>
    dsimp only
    split_ifs
    · exact unchanged rfl
    · exact unchanged rfl
    · exact stdin
  | finished => exact unchanged rfl
  | error => exact unchanged rfl

/-! ## Ids -/

/-- The record under another id. -/
def Parser.relabel (requestId : Nat) (r : Parser) : Parser := { r with messageHeader.requestId := requestId }

theorem process_relabelled {request : Request} (begun : request.state ≠ .begin) (requestId : Nat) (r : Parser) :
    (request.process (r.relabel requestId) : Prog P _) = request.process r := by
  unfold Request.process
  cases here : request.state with
  | begin => exact absurd here begun
  | _ => rfl

theorem returns_process_begun {request : Request} (begun : request.state ≠ .begin) (r : Parser) :
    Returns (request.process r : Prog P _) fun request' =>
      request'.state ≠ .begin ∧ request'.requestId = request.requestId := by
  by_cases finished : r.state = .finished
  · exact (returns_process request finished).mono fun _ outcome => outcome.requestId begun
  · unfold Request.process
    rw [if_pos finished]
    exact returns_pure ⟨nofun, rfl⟩

/-- **The ids of the records behind the begin record are not compared.** The
request keeps the id of its begin record, and any records lead to the same
request under any other ids. -/
theorem record_ids_not_compared (rs : List (Parser × Nat)) :
    ∀ {request : Request}, request.state ≠ .begin →
      (request.processAll (rs.map fun r => r.1.relabel r.2) : Prog P _) = request.processAll (rs.map Prod.fst) ∧
      Returns (request.processAll (rs.map Prod.fst) : Prog P _) fun request' => request'.requestId = request.requestId := by
  induction rs with
  | nil => exact fun _ => ⟨rfl, returns_pure rfl⟩
  | cons r rs ih =>
    intro request begun
    have first := returns_process_begun (P := P) begun r.1
    constructor
    · rw [List.map_cons, List.map_cons, Request.processAll, Request.processAll, process_relabelled begun]
      exact first.bind_congr fun request' led => (ih led.1).1
    · refine first.bind fun request' led => (ih led.1).2.mono fun request'' same => ?_
      rw [same, led.2]

/-- A request that has been handed the begin record of request 1. -/
def begunOne : Request := { Request.init 64 with requestId := 1, state := .paramOrStdin }

theorem record_ids_not_compared_foreign :
    (begunOne.processAll ([(paramRecord 2, 1)].map fun r => r.1.relabel r.2) : Prog .ample _) =
        begunOne.processAll ([(paramRecord 2, 1)].map Prod.fst) ∧
      Returns (begunOne.processAll ([(paramRecord 2, 1)].map Prod.fst) : Prog .ample _) fun request' =>
        request'.requestId = begunOne.requestId :=
  record_ids_not_compared [(paramRecord 2, 1)] (show begunOne.state ≠ .begin by decide)

/-- A sequence of records, and those of them with this id. -/
def withProjection (requestId : Nat) (rs : List Parser) : Prog P (Request × Request) := do
  let whole ← (Request.init 64).processAll rs
  let own ← (Request.init 64).processAll (rs.filter fun r => r.messageHeader.requestId = requestId)
  pure (whole, own)

/-- The two requests hold the same. -/
structure SameContents (whole own : Request) : Prop where
  ends : whole.state = own.state
  parameters : ∀ name, get whole.parameters name = get own.parameters name
  stdin : whole.stdin.octets = own.stdin.octets

/-- A parameter of request 2 gets into request 1. -/
theorem not_isolated_by_id :
    FinishedRecord .ample beginOne ∧ FinishedRecord .ample (paramRecord 2) ∧
      ¬Yields (withProjection 1 [beginOne, paramRecord 2] : Prog .ample _) () fun (whole, own) =>
        whole.state = .error ∨ SameContents whole own := by
  refine ⟨@finishedRecord_of_value .ample [1, 1, 0, 1, 0, 8, 0, 0, 0, 1, 0, 0, 0, 0, 0, 0] _ 16 () (by decide +kernel) rfl,
    @finishedRecord_of_value .ample [1, 4, 0, 2, 0, 4, 0, 0, 1, 1, 65, 66, 1] _ 12 () (by decide +kernel) rfl, fun yields => ?_⟩
  have run : ((withProjection 1 [beginOne, paramRecord 2] : Prog .ample _).value ()).map (fun r =>
      (r.1.state, (get r.1.parameters [65]).isSome, (get r.2.parameters [65]).isSome)) =
      .ok (.paramOrStdin, true, false) := by decide +kernel
  obtain ⟨r, here, isolated⟩ := yields.and (ensures_of_value run)
  simp only [Prod.mk.injEq] at here
  rcases isolated with error | same
  · rw [here.1] at error
    cases error
  · have parameter := here.2.1
    rw [same.parameters, here.2.2] at parameter
    cases parameter

end Cpptrw.Fcgi
