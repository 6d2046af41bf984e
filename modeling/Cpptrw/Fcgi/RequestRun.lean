import Cpptrw.Fcgi.Boundaries
import Cpptrw.Fcgi.RequestLanguage
import Cpptrw.Hashtable.Refinement

/-!
# What a request gathers

`Processed rs request` relates a request to the records it has been handed:
its state is the one the language of requests gives, and as long as that is no
error it holds their contents. One record is `ensures_process`, and any
sequence `ensures_processAll`.
-/

namespace Cpptrw.Fcgi

open Lib Lib.Prog Text Hashtable

variable {P : Platform}

/-! ## Contents of records -/

/-- The first octets of a region. -/
def contents (region : Option Buffer) (length : Nat) : List UInt8 := (readAt region length).toOption.getD []

/-- The pairs of the params records. -/
def paramsContents (rs : List Parser) : List (List UInt8 × List UInt8) :=
  (rs.filter fun r => r.messageHeader.type = typeParams).flatMap fun r =>
    r.params.map fun param => (contents param.name param.nameLength, contents param.value param.valueLength)

/-- The content of the stdin records. -/
def stdinContents (rs : List Parser) : List UInt8 :=
  (rs.filter fun r => r.messageHeader.type = typeStdin).flatMap fun r => contents r.stdinStream.data r.stdinStream.length

theorem paramsContents_append (rs rs' : List Parser) : paramsContents (rs ++ rs') = paramsContents rs ++ paramsContents rs' := by
  simp [paramsContents]

theorem stdinContents_append (rs rs' : List Parser) : stdinContents (rs ++ rs') = stdinContents rs ++ stdinContents rs' := by
  simp [stdinContents]

theorem contents_terminated (xs : List UInt8) : contents (some (terminated xs)) xs.length = xs := by
  rw [contents, readAt, read_terminated]
  rfl

/-! ## Finished records -/

/-- A record as the parser hands it over: some stream leads to it. -/
def FinishedRecord (P : Platform) (r : Parser) : Prop :=
  ∃ (stream : List UInt8) (s s' : P.State) (n : Nat), Parser.init.parse stream s = .ok ((r, n), s') ∧ r.state = .finished

/-- What is in a finished record. -/
structure Decoded (r : Parser) : Prop where
  finished : r.state = .finished
  params : ∃ qs : List Pair, r.params = qs.map Pair.stored
  stdin : r.stdinStream = {} ∨ ∃ xs, r.stdinStream = ⟨xs.length, some (terminated xs)⟩
  empty : r.messageHeader.contentLength = 0 → r.params = [] ∧ r.stdinStream = {}

theorem At.decoded {seen : List UInt8} {p : Parser} (h : At P seen p) (finished : p.state = .finished) : Decoded p := by
  cases h with
  | header short => exact absurd (Or.inl finished) (not_settled_header short)
  | body h =>
    cases h with
    | empty none => exact ⟨rfl, ⟨[], rfl⟩, Or.inl rfl, fun _ => ⟨rfl, rfl⟩⟩
    | begin content type fits => exact ⟨finished, ⟨[], rfl⟩, Or.inl rfl, fun none => absurd none content⟩
    | params content type h =>
      cases h with
      | start => cases finished
      | pair read here inside => exact absurd (Or.inl finished) here.open
      | padding read full some fits => cases finished
      | finished read full all => exact ⟨rfl, ⟨_, rfl⟩, Or.inl rfl, fun none => absurd none content⟩
      | refused memory stuck =>
        rw [stuck] at finished
        cases finished
    | stdin content type h =>
      cases h with
      | start => cases finished
      | data some fits => cases finished
      | padding full some fits => cases finished
      | @finished xs pad counter full all padded =>
        refine ⟨rfl, ⟨[], rfl⟩, Or.inr ⟨xs, ?_⟩, fun none => absurd none content⟩
        rw [full]
        rfl
      | unpadded full none stuck =>
        rw [stuck] at finished
        cases finished
      | refused memory stuck =>
        rw [stuck] at finished
        cases finished
    | unknown content type => cases finished

theorem FinishedRecord.decoded {r : Parser} (h : FinishedRecord P r) : Decoded r := by
  obtain ⟨stream, s, s', n, run, finished⟩ := h
  obtain ⟨-, here, -⟩ := (ensures_parse stream).of_run run
  exact here.decoded finished

/-- A header without content is a finished record of any type. -/
theorem finishedRecord_closing (s : P.State) (type : UInt8) : FinishedRecord P (RequestState.closing type) := by
  refine ⟨[version1, type, 0, 0, 0, 0, 0, 0], s, s, 8, ?_, rfl⟩
  with_unfolding_all rfl

/-- A record contributes to the contents of its type only, and only if it has some. -/
theorem Decoded.paramsContents {r : Parser} (h : Decoded r)
    (none : r.messageHeader.type = typeParams → r.messageHeader.contentLength = 0) : paramsContents [r] = [] := by
  by_cases type : r.messageHeader.type = typeParams
  · simp [Fcgi.paramsContents, type, (h.empty (none type)).1]
  · simp [Fcgi.paramsContents, type]

theorem Decoded.stdinContents {r : Parser} (h : Decoded r)
    (none : r.messageHeader.type = typeStdin → r.messageHeader.contentLength = 0) : stdinContents [r] = [] := by
  by_cases type : r.messageHeader.type = typeStdin
  · simp [Fcgi.stdinContents, type, (h.empty (none type)).2, contents, readAt, Except.toOption]
  · simp [Fcgi.stdinContents, type]

/-! ## Appending -/

/-- A pair as the table holds it: the value is a string created for it. -/
def stored (assignment : List UInt8 × List UInt8) : List UInt8 × Option SlString :=
  (assignment.1, some (SlString.created assignment.2 assignment.2.length))

theorem ensures_appendParam (all : P.Succeeds) (qs : List Pair) :
    ∀ {request : Request} {assignments : List (List UInt8 × Option SlString)},
      Refines request.parameters assignments →
      Ensures (request.appendParam (qs.map Pair.stored) : Prog P _) fun request' =>
        ∃ parameters, request' = { request with parameters } ∧
          Refines parameters (assignments ++ qs.map fun q => stored (q.name, q.value)) := by
  induction qs with
  | nil =>
    intro request assignments h
    refine .pure ⟨request.parameters, rfl, ?_⟩
    simpa using h
  | cons q qs ih =>
    intro request assignments h
    rw [List.map_cons, Request.appendParam]
    simp only [Pair.stored, readAt, read_terminated, lift_ok, pure_bind]
    refine (SlString.ensures_createFromBuffer q.name q.name.length).bind fun name made => ?_
    cases name with
    | none => exact absurd all made
    | some name =>
      refine (SlString.ensures_createFromBuffer q.value q.value.length).bind fun value made' => ?_
      cases value with
      | none => exact absurd all made'
      | some value =>
        subst made made'
        refine (ensures_set all h q.name _).bind fun r hr => ?_
        refine (ih hr.2).mono ?_
        intro request' led
        obtain ⟨parameters, same, h'⟩ := led
        refine ⟨parameters, same, ?_⟩
        rw [List.map_cons, List.append_cons]
        exact h'

theorem ensures_appendStdin (all : P.Succeeds) {r : Parser} (record : Decoded r) (request : Request) :
    Ensures (request.appendStdin r : Prog P _) fun request' =>
      ∃ stdin, request' = { request with stdin } ∧
        stdin.octets = request.stdin.octets ++ contents r.stdinStream.data r.stdinStream.length := by
  unfold Request.appendStdin
  rcases record.stdin with none | ⟨xs, some⟩
  · rw [none, if_pos rfl]
    refine .pure ⟨request.stdin, rfl, ?_⟩
    simp [contents, readAt, Except.toOption]
  · rw [some, contents_terminated]
    split
    · rename_i empty
      refine .pure ⟨request.stdin, rfl, ?_⟩
      rw [List.eq_nil_of_length_eq_zero empty, List.append_nil]
    · simp only [readAt, read_terminated, lift_ok, pure_bind]
      refine (SlString.ensures_appendWithBuffer request.stdin xs).bind fun stdin made => ?_
      cases stdin with
      | none => exact absurd all made
      | some stdin =>
        refine .pure ⟨stdin, rfl, ?_⟩
        rw [made, SlString.octets_appended]

/-! ## Processing -/

/-- The contents of the records in a request. -/
structure Gathered (rs : List Parser) (request : Request) : Prop where
  first : ∀ r ∈ rs.head?, request.flags = r.beginMessage.flags ∧ request.requestId = r.messageHeader.requestId
  parameters : Refines request.parameters ((paramsContents rs).map stored)
  stdin : request.stdin.octets = stdinContents rs

/-- A request that has been handed the records. -/
structure Processed (rs : List Parser) (request : Request) : Prop where
  state : request.state = RequestState.begin.after rs
  table : ∃ assignments, Refines request.parameters assignments
  gathered : request.state ≠ .error → Gathered rs request

namespace Processed

variable {rs : List Parser} {r : Parser} {request : Request}

theorem init {size : Nat} (least : 1 ≤ size) (most : size ≤ 2 ^ 32) : Processed [] (Request.init size) where
  state := rfl
  table := ⟨[], .init least most true⟩
  gathered _ := ⟨nofun, .init least most true, rfl⟩

/-- A record that is out of place. -/
theorem reject (h : Processed rs request) (out : request.state.next r = .error) :
    Processed (rs ++ [r]) { request with state := .error } where
  state := by rw [RequestState.after_snoc, ← h.state, out]
  table := h.table
  gathered live := absurd rfl live

/-- A record behind the first one, with what it contributes. -/
theorem snoc (h : Processed rs request) (begun : request.state ≠ .begin) (live : request.state ≠ .error)
    {state : RequestState} {parameters : Table (Option SlString)} {stdin : SlString} (next : request.state.next r = state)
    (params : Refines request.parameters ((paramsContents rs).map stored) →
      Refines parameters ((paramsContents rs).map stored ++ (paramsContents [r]).map stored))
    (octets : stdin.octets = request.stdin.octets ++ stdinContents [r]) :
    Processed (rs ++ [r]) { request with state, parameters, stdin } := by
  have gathered := h.gathered live
  have some : rs ≠ [] := by
    intro none
    apply begun
    rw [h.state, none]
    rfl
  have parameters' := params gathered.parameters
  rw [← List.map_append, ← paramsContents_append] at parameters'
  refine ⟨?_, ⟨_, parameters'⟩, fun _ => ⟨?_, parameters', ?_⟩⟩
  · rw [RequestState.after_snoc, ← h.state, next]
  · rw [List.head?_append_of_ne_nil _ some]
    exact gathered.first
  · rw [stdinContents_append, ← gathered.stdin]
    exact octets

/-- A record that closes its stream. -/
theorem close (h : Processed rs request) (record : Decoded r) (begun : request.state ≠ .begin)
    (live : request.state ≠ .error) (none : r.messageHeader.contentLength = 0) {state : RequestState}
    (next : request.state.next r = state) : Processed (rs ++ [r]) { request with state } := by
  apply h.snoc begun live next
  · rw [record.paramsContents fun _ => none, List.map_nil, List.append_nil]
    exact id
  · rw [record.stdinContents fun _ => none, List.append_nil]

/-- A params record with content. -/
theorem append_param (all : P.Succeeds) (h : Processed rs request) (record : Decoded r) (begun : request.state ≠ .begin)
    (live : request.state ≠ .error) (type : r.messageHeader.type = typeParams) (stays : request.state.next r = request.state) :
    Ensures (request.appendParam r.params : Prog P _) (Processed (rs ++ [r])) := by
  obtain ⟨qs, params⟩ := record.params
  have mine : (paramsContents [r]).map stored = qs.map fun q => stored (q.name, q.value) := by
    simp [Fcgi.paramsContents, type, params, Pair.stored, contents_terminated]
  rw [params]
  refine (ensures_appendParam all qs (h.gathered live).parameters).mono ?_
  intro request' ⟨parameters, same, refines⟩
  subst same
  apply h.snoc begun live stays
  · rw [mine]
    exact fun _ => refines
  · rw [record.stdinContents fun other => absurd (type.symm.trans other) (by decide), List.append_nil]

/-- A stdin record with content. -/
theorem append_stdin (all : P.Succeeds) (h : Processed rs request) (record : Decoded r) (begun : request.state ≠ .begin)
    (live : request.state ≠ .error) (type : r.messageHeader.type = typeStdin) (stays : request.state.next r = request.state) :
    Ensures (request.appendStdin r : Prog P _) (Processed (rs ++ [r])) := by
  refine (ensures_appendStdin all record request).mono ?_
  intro request' ⟨stdin, same, octets⟩
  subst same
  apply h.snoc begun live stays
  · rw [record.paramsContents fun other => absurd (type.symm.trans other) (by decide), List.map_nil, List.append_nil]
    exact id
  · rw [octets]
    simp [Fcgi.stdinContents, type]

end Processed

/-- **One record.** -/
theorem ensures_process (all : P.Succeeds) {rs : List Parser} {r : Parser} {request : Request} (h : Processed rs request)
    (record : Decoded r) : Ensures (request.process r : Prog P _) (Processed (rs ++ [r])) := by
  have next : ∀ {state : RequestState}, request.state = state → request.state.next r = state.next r := by
    intro state here
    rw [here]
  unfold Request.process
  dsimp only
  rw [if_neg (not_not.mpr record.finished)]
  cases here : request.state with
  | begin =>
    have none : rs = [] := RequestState.eq_nil_of_after (h.state.symm.trans here)
    dsimp only
    split_ifs with other
    · refine .pure (h.reject ?_)
      rw [here, RequestState.next, if_neg other]
    · have first : r.messageHeader.type = typeBeginRequest := not_not.mp other
      subst none
      have gathered := h.gathered (by rw [here]; decide)
      refine .pure ⟨?_, h.table, fun _ => ⟨?_, ?_, ?_⟩⟩
      · rw [RequestState.after_snoc, RequestState.after, List.foldl_nil, RequestState.next, if_pos first]
      · intro r' mem
        cases mem
        exact ⟨rfl, rfl⟩
      · rw [List.nil_append, record.paramsContents fun params => absurd (first.symm.trans params) (by decide)]
        exact gathered.parameters
      · rw [List.nil_append, record.stdinContents fun stdin => absurd (first.symm.trans stdin) (by decide)]
        exact gathered.stdin
  | paramOrStdin =>
    have begun : request.state ≠ .begin := by rw [here]; decide
    have live : request.state ≠ .error := by rw [here]; decide
    dsimp only
    split_ifs with params empty stdin empty
    · refine .pure (h.close record begun live empty ?_)
      rw [here, RequestState.next, if_pos params, if_pos empty]
    · apply h.append_param all record begun live params
      rw [here, RequestState.next, if_pos params, if_neg empty]
    · refine .pure (h.close record begun live empty ?_)
      rw [here, RequestState.next, if_neg params, if_pos stdin, if_pos empty]
    · apply h.append_stdin all record begun live stdin
      rw [here, RequestState.next, if_neg params, if_pos stdin, if_neg empty]
    · refine .pure (h.reject ?_)
      rw [here, RequestState.next, if_neg params, if_neg stdin]
  | param =>
    have begun : request.state ≠ .begin := by rw [here]; decide
    have live : request.state ≠ .error := by rw [here]; decide
    dsimp only
    split_ifs with other empty
    · refine .pure (h.reject ?_)
      rw [here, RequestState.next, if_neg other]
    · refine .pure (h.close record begun live empty ?_)
      rw [here, RequestState.next, if_pos (not_not.mp other), if_pos empty]
    · apply h.append_param all record begun live (not_not.mp other)
      rw [here, RequestState.next, if_pos (not_not.mp other), if_neg empty]
  | stdin =>
    have begun : request.state ≠ .begin := by rw [here]; decide
    have live : request.state ≠ .error := by rw [here]; decide
    dsimp only
    split_ifs with other empty
    · refine .pure (h.reject ?_)
      rw [here, RequestState.next, if_neg other]
    · refine .pure (h.close record begun live empty ?_)
      rw [here, RequestState.next, if_pos (not_not.mp other), if_pos empty]
    · apply h.append_stdin all record begun live (not_not.mp other)
      rw [here, RequestState.next, if_pos (not_not.mp other), if_neg empty]
  | finished =>
    refine .pure (h.reject ?_)
    rw [here, RequestState.next]
  | error =>
    have rejected := h.reject (r := r) (by rw [here, RequestState.next])
    rw [← here] at rejected
    exact .pure rejected

theorem ensures_processAll (all : P.Succeeds) (rs : List Parser) :
    ∀ {before : List Parser} {request : Request}, Processed before request → (∀ r ∈ rs, Decoded r) →
      Ensures (request.processAll rs : Prog P _) (Processed (before ++ rs)) := by
  induction rs with
  | nil =>
    intro before request h _
    rw [List.append_nil]
    exact .pure h
  | cons r rs ih =>
    intro before request h records
    obtain ⟨record, records⟩ := List.forall_mem_cons.mp records
    rw [List.append_cons]
    exact (ensures_process all h record).bind fun request h => ih h records

/-- The error state is left to the sequences that no further record can complete. -/
theorem Processed.error_iff {rs : List Parser} {request : Request} (h : Processed rs request) (s : P.State) :
    request.state = .error ↔ ¬∃ more, (∀ r ∈ more, FinishedRecord P r) ∧ Complete (rs ++ more) := by
  have residual : ∀ more, Complete (rs ++ more) ↔ request.state.Accepts more := by
    intro more
    rw [h.state, ← RequestState.accepts_append, RequestState.Accepts]
  constructor
  · intro error completed
    obtain ⟨more, -, complete⟩ := completed
    rw [residual, error] at complete
    exact complete
  · intro none
    by_contra live
    obtain ⟨types, accepts⟩ := RequestState.exists_accepts live
    refine none ⟨types.map RequestState.closing, ?_, (residual _).mpr accepts⟩
    intro r mem
    obtain ⟨type, -, rfl⟩ := List.mem_map.mp mem
    exact finishedRecord_closing s type

/-- The table has the last value of every name. -/
theorem Gathered.get {rs : List Parser} {request : Request} (h : Gathered rs request) (name : List UInt8) :
    (get request.parameters name).map (Option.map SlString.octets) = (lastValue (paramsContents rs) name).map some := by
  have value := lastValue_map (fun value : List UInt8 => some (SlString.created value value.length)) (paramsContents rs) name
  rw [h.parameters.get, show (paramsContents rs).map stored = (paramsContents rs).map fun assignment =>
    (assignment.1, some (SlString.created assignment.2 assignment.2.length)) from rfl, value]
  simp [Option.map_map, Function.comp_def, SlString.created]

/-- **The request accepts exactly the complete sequences of records, and holds
exactly their contents.** -/
theorem request_accepts_complete (all : P.Succeeds) {size : Nat} (least : 1 ≤ size) (most : size ≤ 2 ^ 32)
    {rs : List Parser} (records : ∀ r ∈ rs, FinishedRecord P r) :
    Ensures ((Request.init size).processAll rs : Prog P _) fun request =>
      (request.state = .finished ↔ Complete rs) ∧
      (request.state = .error ↔ ¬∃ more, (∀ r ∈ more, FinishedRecord P r) ∧ Complete (rs ++ more)) ∧
      (request.state ≠ .error →
        request.stdin.octets = stdinContents rs ∧
        (∀ name, (get request.parameters name).map (Option.map SlString.octets) =
          (lastValue (paramsContents rs) name).map some) ∧
        ∀ r ∈ rs.head?, request.flags = r.beginMessage.flags ∧ request.requestId = r.messageHeader.requestId) := by
  intro s
  have run := ensures_processAll all rs (.init least most) fun r mem => (records r mem).decoded
  refine (run.mono fun request h => ?_) s
  rw [List.nil_append] at h
  refine ⟨?_, h.error_iff s, fun live => ?_⟩
  · rw [h.state, RequestState.complete_iff]
  · have gathered := h.gathered live
    exact ⟨gathered.stdin, gathered.get, gathered.first⟩

/-- The begin record of request 1. -/
def beginOne : Parser :=
  { state := .finished, messageSize := 16, messageHeader := { version := 1, type := typeBeginRequest, requestId := 1, contentLength := 8 }
    beginMessage := { role := 1 } }

/-- A params record with `A=B`. -/
def paramRecord (requestId : Nat) : Parser :=
  { state := .finished, messageSize := 4, messageHeader := { version := 1, type := typeParams, requestId, contentLength := 4 }
    params := [Pair.stored ⟨[65], [66]⟩] }

theorem finishedRecord_of_value {stream : List UInt8} {r : Parser} {n : Nat} {s : P.State}
    (h : (Parser.init.parse stream : Prog P _).value s = .ok (r, n)) (finished : r.state = .finished) : FinishedRecord P r := by
  obtain ⟨s', run⟩ := exists_run_of_value h
  exact ⟨stream, s, s', n, run, finished⟩

/-- A record with two octets of input. -/
def inputRecord : Parser :=
  { state := .finished, readCounter := 2 ^ 64 - 1, messageSize := 2
    messageHeader := { version := 1, type := typeStdin, requestId := 1, contentLength := 2, paddingLength := 1 }
    stdinStream := ⟨2, some (terminated [72, 105])⟩ }

/-- A request that sends the name `A` twice, and input between the two. -/
def repeatedName : List Parser :=
  [beginOne, paramRecord 1, inputRecord, { paramRecord 1 with params := [Pair.stored ⟨[65], [67]⟩] },
    RequestState.closing typeStdin, RequestState.closing typeParams]

theorem finished_repeatedName : ∀ r ∈ repeatedName, FinishedRecord .ample r := by
  intro r there
  simp only [repeatedName, List.mem_cons, List.not_mem_nil, or_false] at there
  rcases there with rfl | rfl | rfl | rfl | rfl | rfl
  · exact @finishedRecord_of_value .ample [1, 1, 0, 1, 0, 8, 0, 0, 0, 1, 0, 0, 0, 0, 0, 0] _ 16 () (by decide +kernel) rfl
  · exact @finishedRecord_of_value .ample [1, 4, 0, 1, 0, 4, 0, 0, 1, 1, 65, 66, 1] _ 12 () (by decide +kernel) rfl
  · exact @finishedRecord_of_value .ample [1, 5, 0, 1, 0, 2, 1, 0, 72, 105, 0, 1] _ 11 () (by decide +kernel) rfl
  · exact @finishedRecord_of_value .ample [1, 4, 0, 1, 0, 4, 0, 0, 1, 1, 65, 67, 1] _ 12 () (by decide +kernel) rfl
  · exact finishedRecord_closing () typeStdin
  · exact finishedRecord_closing () typeParams

/-- It is complete, its input is all there, and the name has the value that was sent last. -/
theorem request_accepts_complete_repeated_name :
    Ensures ((Request.init 64).processAll repeatedName : Prog Platform.ample _) fun request =>
      request.state = .finished ∧ request.stdin.octets = [72, 105] ∧
        (get request.parameters [65]).map (Option.map SlString.octets) = some (some [67]) ∧ request.requestId = 1 := by
  have accepted := request_accepts_complete Platform.ample_succeeds (show 1 ≤ 64 by decide) (by decide) finished_repeatedName
  refine accepted.mono fun request led => ?_
  obtain ⟨complete, -, contents⟩ := led
  have finished := complete.mpr ((RequestState.complete_iff repeatedName).mpr (by decide))
  obtain ⟨stdin, parameters, begun⟩ := contents (by rw [finished]; decide)
  exact ⟨finished, stdin, parameters [65], (begun beginOne rfl).2⟩

end Cpptrw.Fcgi
