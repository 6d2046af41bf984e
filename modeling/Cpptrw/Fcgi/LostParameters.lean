import Cpptrw.Fcgi.RequestStep
import Cpptrw.Hashtable.Extent
import Cpptrw.Lib.Reach

/-!
# Parameters that are lost

A parameter of a record asks for the strings of its name and its value, and
then for what `sl_hashtable_set` needs. `sl_fcgi_request_append_param` looks at
no answer: a name that was refused is hashed, a value that was refused is
stored, and a parameter that does not get into the table is gone. `Spared`
lists the answers under which nothing of the kind happens, and `Harmless` those
under which the request is at least processed to its end.
-/

namespace Cpptrw.Fcgi

open Lib Lib.Prog Text Hashtable

variable {P : Platform}

/-! ## The answers to one parameter -/

/-- The requests of `sl_string_create_from_buffer`. -/
def stringRequests (octets : List UInt8) : List Nat := [sizeofString, (SlString.created octets octets.length).allocated]

theorem createFromBuffer_run (octets : List UInt8) (s : P.State) :
    (SlString.createFromBuffer octets octets.length : Prog P _) s =
      .ok (if (P.meets (stringRequests octets) s).1 then some (SlString.created octets octets.length) else none,
        (P.meets (stringRequests octets) s).2) := by
  unfold SlString.createFromBuffer
  rw [allocate_bind_apply, stringRequests]
  by_cases header : (P.allocate s sizeofString).1 = true
  · rw [if_pos header, allocate_bind_apply]
    by_cases buffer : (P.allocate (P.allocate s sizeofString).2 (SlString.created octets octets.length).allocated).1 = true
    · simp only [Platform.meets, header, buffer, if_true]
      exact congrFun (if_pos buffer) _
    · simp only [Platform.meets, header, buffer, if_true, Bool.false_eq_true, if_false]
      exact congrFun (if_neg buffer) _
  · rw [if_neg header]
    simp [Platform.meets, header, pure_apply]

/-- What becomes of a parameter: whether its value is met, whether its name is
refused and dereferenced, and what becomes of the call of `sl_hashtable_set`. -/
structure Pass (P : Platform) where
  valued : Bool
  dereferenced : Bool
  answered : Answered P

/-- A name that was refused gets no further than the array. -/
def pass (P : Platform) (e : Extent) (name value : List UInt8) (s : P.State) : Pass P :=
  let named := P.meets (stringRequests name) s
  let valued := P.meets (stringRequests value) named.2
  let array := P.meets e.arrayRequests valued.2
  if named.1 then ⟨valued.1, false, e.assign P name valued.2⟩ else ⟨valued.1, array.1, ⟨false, e, array.2⟩⟩

/-- No name that was refused is dereferenced, no value that was refused is
stored, and the last parameter of every name gets into the table. -/
def Spared (P : Platform) : Extent → List (List UInt8 × List UInt8) → P.State → Prop
  | _, [], _ => True
  | e, (name, value) :: rest, s =>
    (pass P e name value s).dereferenced = false ∧
    ((pass P e name value s).answered.made = true → (pass P e name value s).valued = true) ∧
    (name ∉ rest.map Prod.fst → (pass P e name value s).answered.made = true) ∧
    Spared P (pass P e name value s).answered.extent rest (pass P e name value s).answered.state

instance decidableSpared : ∀ (e : Extent) (pairs : List (List UInt8 × List UInt8)) (s : P.State), Decidable (Spared P e pairs s)
  | _, [], _ => inferInstanceAs (Decidable True)
  | e, (name, value) :: rest, s =>
    have := decidableSpared (pass P e name value s).answered.extent rest (pass P e name value s).answered.state
    inferInstanceAs (Decidable (_ ∧ _ ∧ _ ∧ _))

/-- No name that was refused is dereferenced. -/
def Harmless (P : Platform) : Extent → List (List UInt8 × List UInt8) → P.State → Prop
  | _, [], _ => True
  | e, (name, value) :: rest, s =>
    (pass P e name value s).dereferenced = false ∧
    Harmless P (pass P e name value s).answered.extent rest (pass P e name value s).answered.state

instance decidableHarmless : ∀ (e : Extent) (pairs : List (List UInt8 × List UInt8)) (s : P.State), Decidable (Harmless P e pairs s)
  | _, [], _ => inferInstanceAs (Decidable True)
  | e, (name, value) :: rest, s =>
    have := decidableHarmless (pass P e name value s).answered.extent rest (pass P e name value s).answered.state
    inferInstanceAs (Decidable (_ ∧ _))

/-! ## One parameter -/

section OnePass

variable {request : Request} {assignments : List (List UInt8 × Option SlString)}

theorem set_null_run (h : Refines request.parameters assignments) (value : Option SlString) (s : P.State) :
    (Hashtable.set request.parameters none value : Prog P _) s =
      if (P.meets (extent request.parameters).arrayRequests s).1 then .error .nullPointer
      else .ok ((false, request.parameters), (P.meets (extent request.parameters).arrayRequests s).2) := by
  have requests : arrayRequests request.parameters = (extent request.parameters).arrayRequests := rfl
  rw [Hashtable.set, bind_apply, provide_run h s, requests]
  by_cases array : (P.meets (extent request.parameters).arrayRequests s).1 = true
  · rw [if_pos array, if_pos array, array]
    rfl
  · rw [if_neg array, if_neg array, Bool.eq_false_iff.mpr array]
    rfl

/-- The parameter leads from one table to another. -/
structure Passes (P : Platform) (request : Request) (assignments : List (List UInt8 × Option SlString)) (q : Pair) (s : P.State)
    (t : Table (Option SlString)) (done : Pass P) : Prop where
  run : ∀ next, request.appendParam (q.stored :: next) s = Request.appendParam { request with parameters := t } next done.answered.state
  left : extent t = done.answered.extent
  made : done.answered.made = true →
    Refines t (assignments ++ [(q.name, if done.valued then some (SlString.created q.value q.value.length) else none)])
  lost : done.answered.made = false → Refines t assignments ∧ q.name ∉ assignments.map Prod.fst

/-- **One parameter**, by its answers. -/
theorem pass_run (h : Refines request.parameters assignments) (q : Pair) (s : P.State) :
    (pass P (extent request.parameters) q.name q.value s).dereferenced = true ∧
        (∀ next, (request.appendParam (q.stored :: next) : Prog P _) s = .error .nullPointer) ∨
      (pass P (extent request.parameters) q.name q.value s).dereferenced = false ∧
        ∃ t, Passes P request assignments q s t (pass P (extent request.parameters) q.name q.value s) := by
  have step : ∀ next, (request.appendParam (q.stored :: next) : Prog P _) s =
      (Hashtable.set request.parameters
        (if (P.meets (stringRequests q.name) s).1 then some q.name else none)
        (if (P.meets (stringRequests q.value) (P.meets (stringRequests q.name) s).2).1 then
          some (SlString.created q.value q.value.length) else none) >>= fun r =>
        Request.appendParam { request with parameters := r.2 } next : Prog P _)
        (P.meets (stringRequests q.value) (P.meets (stringRequests q.name) s).2).2 := by
    intro next
    rw [Request.appendParam]
    simp only [Pair.stored, readAt, read_terminated, lift_ok, pure_bind]
    rw [bind_apply, createFromBuffer_run]
    dsimp only
    rw [bind_apply, createFromBuffer_run]
    dsimp only
    split <;> rfl
  unfold pass
  dsimp only
  by_cases named : (P.meets (stringRequests q.name) s).1 = true
  · simp only [named, if_true] at step ⊢
    obtain ⟨r, run, left, made, lost⟩ := set_extent h q.name (if (P.meets (stringRequests q.value)
      (P.meets (stringRequests q.name) s).2).1 then some (SlString.created q.value q.value.length) else none)
      (P.meets (stringRequests q.value) (P.meets (stringRequests q.name) s).2).2
    right
    refine ⟨trivial, r.2, ?_, left, made, lost⟩
    intro next
    rw [step, bind_apply, run]
  · simp only [named, Bool.false_eq_true, if_false] at step ⊢
    by_cases array : (P.meets (extent request.parameters).arrayRequests
        (P.meets (stringRequests q.value) (P.meets (stringRequests q.name) s).2).2).1 = true
    · -- the NULL name is hashed
      left
      refine ⟨array, ?_⟩
      intro next
      rw [step, bind_apply, set_null_run h, if_pos array]
    · have refused := Bool.eq_false_iff.mpr array
      right
      refine ⟨refused, request.parameters, ?_⟩
      constructor
      · intro next
        rw [step, bind_apply, set_null_run h, if_neg array]
      · rfl
      · exact fun made => absurd made Bool.false_ne_true
      · exact fun _ => ⟨h, h.unknown refused q.name⟩

/-- The parameters behind it start from its table. -/
theorem Passes.yields {q : Pair} {s : P.State} {t : Table (Option SlString)} {done : Pass P}
    (h : Passes P request assignments q s t done) {next : List MsgParam} {Q : Request → Prop} :
    Yields (request.appendParam (q.stored :: next) : Prog P _) s Q ↔
      Yields (Request.appendParam { request with parameters := t } next : Prog P _) done.answered.state Q := by
  rw [Yields, Yields, h.run]

/-- No parameter is given `NULL` as its value. -/
def NoNull (P : Platform) (request : Request) (params : List MsgParam) (s : P.State) : Prop :=
  ∀ k param, params[k]? = some param →
    Yields (request.appendParam (params.take (k + 1)) : Prog P _) s fun request' =>
      get request'.parameters (contents param.name param.nameLength) ≠ some none

theorem noNull_nil (request : Request) (s : P.State) : NoNull P request [] s := by
  intro k param found
  simp at found

theorem Passes.noNull {q : Pair} {s : P.State} {t : Table (Option SlString)} {done : Pass P}
    (h : Passes P request assignments q s t done) {next : List MsgParam} :
    NoNull P request (q.stored :: next) s ↔
      get t q.name ≠ some none ∧ NoNull P { request with parameters := t } next done.answered.state := by
  have name : contents q.stored.name q.stored.nameLength = q.name := contents_terminated q.name
  constructor
  · intro all
    constructor
    · obtain ⟨request', s', run, here⟩ := h.yields.mp (all 0 q.stored rfl)
      cases run
      rwa [name] at here
    · exact fun k param found => h.yields.mp (all (k + 1) param found)
  · intro all k param found
    obtain ⟨here, rest⟩ := all
    cases k with
    | zero =>
      cases found
      exact h.yields.mpr ⟨_, _, rfl, by rwa [name]⟩
    | succ k => exact h.yields.mpr (rest k param found)

end OnePass

/-! ## All the parameters -/

/-- The octets of the pairs. -/
def assigned (qs : List Pair) : List (List UInt8 × List UInt8) := qs.map fun q => (q.name, q.value)

/-- Every name has its last value. -/
def MapsAll (request : Request) (pairs : List (List UInt8 × List UInt8)) : Prop :=
  ∀ name ∈ pairs.map Prod.fst, (get request.parameters name).map (Option.map SlString.octets) = (lastValue pairs name).map some

theorem Passes.refines {request : Request} {assignments : List (List UInt8 × Option SlString)} {q : Pair} {s : P.State}
    {t : Table (Option SlString)} {done : Pass P} (h : Passes P request assignments q s t done) :
    ∃ assignments, Refines t assignments := by
  by_cases made : done.answered.made = true
  · exact ⟨_, h.made made⟩
  · exact ⟨_, (h.lost (Bool.eq_false_iff.mpr made)).1⟩

/-- The parameters are gone through to the end, if and only if no name is dereferenced that was refused. -/
theorem yields_appendParam_iff (qs : List Pair) :
    ∀ {request : Request} {s : P.State}, Tabled request →
      (Yields (request.appendParam (qs.map Pair.stored) : Prog P _) s (fun _ => True) ↔
        Harmless P (extent request.parameters) (assigned qs) s) := by
  induction qs with
  | nil => exact fun _ => ⟨fun _ => trivial, fun _ => ⟨_, _, rfl, trivial⟩⟩
  | cons q qs ih =>
    intro request s h
    obtain ⟨assignments, refines⟩ := h
    rcases pass_run refines q s with ⟨hashed, fault⟩ | ⟨safe, t, passes⟩
    · constructor
      · rintro ⟨request', s', run, -⟩
        rw [List.map_cons, fault] at run
        cases run
      · rintro ⟨safe, -⟩
        exact absurd hashed (Bool.eq_false_iff.mp safe)
    · rw [List.map_cons, passes.yields, @ih { request with parameters := t } _ passes.refines]
      dsimp only
      rw [passes.left]
      exact ⟨fun rest => ⟨safe, rest⟩, fun all => all.2⟩

/-- Only names of the record are assigned to. -/
theorem returns_appendParam_made (qs : List Pair) :
    ∀ {request : Request} {assignments : List (List UInt8 × Option SlString)}, Refines request.parameters assignments →
      Returns (request.appendParam (qs.map Pair.stored) : Prog P _) fun request' =>
        ∃ made, Refines request'.parameters (assignments ++ made) ∧ ∀ name ∈ made.map Prod.fst, name ∈ (assigned qs).map Prod.fst := by
  induction qs with
  | nil =>
    intro request assignments h
    exact returns_pure ⟨[], by simpa using h, by simp⟩
  | cons q qs ih =>
    intro request assignments h s request' s' run
    rcases pass_run h q s with ⟨-, fault⟩ | ⟨-, t, passes⟩
    · rw [List.map_cons, fault] at run
      cases run
    · rw [List.map_cons, passes.run] at run
      by_cases made : (pass P (extent request.parameters) q.name q.value s).answered.made = true
      · obtain ⟨more, refines, names⟩ := @ih { request with parameters := t } _ (passes.made made) _ _ _ run
        refine ⟨_, List.append_assoc .. ▸ refines, ?_⟩
        intro name mem
        rcases List.mem_cons.mp mem with rfl | mem
        · exact List.mem_cons_self
        · exact List.mem_cons_of_mem _ (names name mem)
      · obtain ⟨more, refines, names⟩ := @ih { request with parameters := t } _
          (passes.lost (Bool.eq_false_iff.mpr made)).1 _ _ _ run
        exact ⟨more, refines, fun name mem => List.mem_cons_of_mem _ (names name mem)⟩

/-- With these answers every parameter gets where it belongs. -/
theorem spared_run (qs : List Pair) :
    ∀ {request : Request} {assignments : List (List UInt8 × Option SlString)} {s : P.State},
      Refines request.parameters assignments → Spared P (extent request.parameters) (assigned qs) s →
      NoNull P request (qs.map Pair.stored) s ∧
        Yields (request.appendParam (qs.map Pair.stored) : Prog P _) s fun request' =>
          ∃ made, Refines request'.parameters (assignments ++ made) ∧
            ∀ name, lastValue made name = lastValue ((assigned qs).map stored) name := by
  induction qs with
  | nil =>
    intro request assignments s h _
    exact ⟨noNull_nil request s, _, _, rfl, [], by simpa using h, fun _ => rfl⟩
  | cons q qs ih =>
    intro request assignments s h spared
    obtain ⟨safe, valued, last, rest⟩ := spared
    rcases pass_run h q s with ⟨fault, -⟩ | ⟨-, t, passes⟩
    · rw [safe] at fault
      cases fault
    · rw [List.map_cons, passes.noNull, passes.yields]
      rw [← passes.left] at rest
      by_cases made : (pass P (extent request.parameters) q.name q.value s).answered.made = true
      · have refines := passes.made made
        rw [if_pos (valued made)] at refines
        obtain ⟨noNull, request', s', run, more, refines', same⟩ := @ih { request with parameters := t } _ _ refines rest
        have here : get t q.name ≠ some none := by
          rw [refines.get, lastValue_snoc, if_pos rfl]
          simp
        refine ⟨⟨here, noNull⟩, request', s', run, _, List.append_assoc .. ▸ refines', ?_⟩
        intro name
        rw [List.singleton_append, lastValue_cons, same]
        exact (lastValue_cons ..).symm
      · obtain ⟨refines, new⟩ := passes.lost (Bool.eq_false_iff.mpr made)
        obtain ⟨noNull, request', s', run, more, refines', same⟩ := @ih { request with parameters := t } _ _ refines rest
        have here : get t q.name ≠ some none := by
          rw [refines.get, lastValue_eq_none new]
          nofun
        -- a later parameter of the same name takes the place of the lost one
        have again : q.name ∈ (assigned qs).map Prod.fst := by
          by_contra only
          exact made (last only)
        refine ⟨⟨here, noNull⟩, request', s', run, more, refines', ?_⟩
        intro name
        rw [same]
        refine (lastValue_cons_again ?_ _ name).symm
        rwa [List.map_map]

/-- Other answers lose a parameter, or store or dereference `NULL`. -/
theorem spared_of_mapsAll (qs : List Pair) :
    ∀ {request : Request} {assignments : List (List UInt8 × Option SlString)} {s : P.State},
      Refines request.parameters assignments → NoNull P request (qs.map Pair.stored) s →
      Yields (request.appendParam (qs.map Pair.stored) : Prog P _) s (MapsAll · (assigned qs)) →
      Spared P (extent request.parameters) (assigned qs) s := by
  induction qs with
  | nil => exact fun _ _ _ => trivial
  | cons q qs ih =>
    intro request assignments s h noNull mapped
    rcases pass_run h q s with ⟨-, fault⟩ | ⟨safe, t, passes⟩
    · obtain ⟨request', s', run, -⟩ := mapped
      rw [List.map_cons, fault] at run
      cases run
    · rw [List.map_cons, passes.noNull] at noNull
      rw [List.map_cons, passes.yields] at mapped
      obtain ⟨request', s', run, all⟩ := mapped
      refine ⟨safe, ?_, ?_, ?_⟩
      · -- a refused value would be in the table as NULL
        intro made
        by_contra unvalued
        have refines := passes.made made
        rw [if_neg unvalued] at refines
        exact noNull.1 (by rw [refines.get, lastValue_snoc, if_pos rfl])
      · -- the name would be in no table behind its last parameter
        intro only
        by_contra missed
        obtain ⟨refines, new⟩ := passes.lost (Bool.eq_false_iff.mpr missed)
        obtain ⟨more, refines', names⟩ := returns_appendParam_made (P := P) qs refines _ _ _ run
        have here := all q.name List.mem_cons_self
        have once : lastValue (assigned qs) q.name = none := lastValue_eq_none only
        have value : lastValue (assigned (q :: qs)) q.name = some q.value := by
          change lastValue ((q.name, q.value) :: assigned qs) q.name = some q.value
          rw [lastValue_cons, once, if_pos rfl, Option.none_or]
        rw [refines'.get, lastValue_append, lastValue_eq_none fun mem => only (names q.name mem), lastValue_eq_none new, value] at here
        cases here
      · rw [← passes.left]
        obtain ⟨_, refines⟩ := passes.refines
        apply @ih { request with parameters := t } _ _ refines noNull.2
        refine ⟨request', s', run, ?_⟩
        intro name mem
        have here := all name (List.mem_cons_of_mem _ mem)
        have value : lastValue (assigned (q :: qs)) name = lastValue (assigned qs) name := lastValue_cons_of_mem mem _ _
        rwa [value] at here

/-! ## The record -/

/-- No parameter of the record is lost silently: no name is dereferenced that
was refused (the call returns), no value is stored that was refused, and the
request is an error or maps every name of the record to its last value. -/
structure Kept (P : Platform) (request : Request) (r : Parser) (s : P.State) : Prop where
  noNull : NoNull P request r.params s
  mapped : Yields (request.process r : Prog P _) s fun request' => request'.state = .error ∨ MapsAll request' (paramsContents [r])

/-- The states that accept params records. -/
def AcceptsParams (request : Request) : Prop := request.state = .paramOrStdin ∨ request.state = .param

theorem process_params {request : Request} (accepts : AcceptsParams request) {r : Parser} (finished : r.state = .finished)
    (type : r.messageHeader.type = typeParams) :
    ∃ state, (request.process r : Prog P _) =
      if r.messageHeader.contentLength = 0 then pure { request with state } else request.appendParam r.params := by
  unfold Request.process
  dsimp only
  rw [if_neg (not_not.mpr finished)]
  rcases accepts with here | here
  · rw [here]
    exact ⟨.stdin, if_pos type⟩
  · rw [here]
    exact ⟨.finished, if_neg (not_not.mpr type)⟩

theorem paramsContents_stored {r : Parser} {qs : List Pair} (type : r.messageHeader.type = typeParams)
    (params : r.params = qs.map Pair.stored) : paramsContents [r] = assigned qs := by
  simp [paramsContents, assigned, type, params, Pair.stored, contents_terminated]

/-- **One record**, on a table that is a map. -/
theorem kept_iff_spared {request : Request} {assignments : List (List UInt8 × Option SlString)}
    (h : Refines request.parameters assignments) (accepts : AcceptsParams request) {r : Parser} (record : Decoded r)
    (type : r.messageHeader.type = typeParams) (s : P.State) :
    Kept P request r s ↔ Spared P (extent request.parameters) (paramsContents [r]) s := by
  obtain ⟨qs, params⟩ := record.params
  have pairs : paramsContents [r] = assigned qs := paramsContents_stored type params
  obtain ⟨state, process⟩ := process_params (P := P) accepts record.finished type
  by_cases empty : r.messageHeader.contentLength = 0
  · have nothing : paramsContents [r] = [] := record.paramsContents fun _ => empty
    have params := (record.empty empty).1
    rw [if_pos empty] at process
    rw [nothing]
    refine ⟨fun _ => trivial, fun _ => ⟨?_, ?_⟩⟩
    · rw [params]
      exact noNull_nil request s
    · rw [process, nothing]
      exact ⟨_, _, rfl, Or.inr fun name mem => absurd mem List.not_mem_nil⟩
  · rw [if_neg empty] at process
    rw [pairs]
    constructor
    · rintro ⟨noNull, mapped⟩
      rw [params] at noNull
      rw [process, params, pairs] at mapped
      obtain ⟨request', s', run, outcome⟩ := mapped
      obtain ⟨parameters, same⟩ := returns_appendParam _ _ _ _ _ run
      have live : request'.state ≠ .error := by
        rw [same]
        rcases accepts with here | here <;> simp [here]
      exact spared_of_mapsAll qs h noNull ⟨request', s', run, outcome.resolve_left live⟩
    · intro spared
      obtain ⟨noNull, request', s', run, made, refines, same⟩ := spared_run qs h spared
      refine ⟨params ▸ noNull, ?_⟩
      rw [process, params, pairs]
      refine ⟨request', s', run, Or.inr fun name mem => ?_⟩
      obtain ⟨last, found⟩ := Option.isSome_iff_exists.mp ((lastValue_isSome (assigned qs) name).mpr mem)
      have value := lastValue_map (fun value : List UInt8 => some (SlString.created value value.length)) (assigned qs) name
      rw [refines.get, lastValue_append, same, show (assigned qs).map stored = (assigned qs).map fun assignment =>
        (assignment.1, some (SlString.created assignment.2 assignment.2.length)) from rfl, value, found]
      rfl

/-- What the allocator answers at a finished record leads to no name that is `NULL`. -/
def NamesMet (P : Platform) (request : Request) (r : Parser) (s : P.State) : Prop :=
  AcceptsParams request → r.messageHeader.type = typeParams → Harmless P (extent request.parameters) (paramsContents [r]) s

/-- Only parameters dereference. -/
theorem ensures_process_other {r : Parser} (record : Decoded r) {request : Request} (h : Tabled request)
    (other : AcceptsParams request → r.messageHeader.type ≠ typeParams) :
    Ensures (request.process r : Prog P _) fun _ => True := by
  have stdin : Ensures (request.appendStdin r : Prog P _) fun _ => True :=
    (ensures_appendStdin_tabled record h).mono fun _ _ => trivial
  unfold Request.process
  dsimp only
  rw [if_neg (not_not.mpr record.finished)]
  cases here : request.state with
  | begin =>
    dsimp only
    split_ifs <;> exact .pure trivial
  | paramOrStdin =>
    have type := other (Or.inl here)
    dsimp only
    rw [if_neg type]
    split_ifs
    · exact .pure trivial
    · exact stdin
    · exact .pure trivial
  | param =>
    have type := other (Or.inr here)
    dsimp only
    rw [if_pos type]
    exact .pure trivial
  | stdin =>
    dsimp only
    split_ifs
    · exact .pure trivial
    · exact .pure trivial
    · exact stdin
  | finished => exact .pure trivial
  | error => exact .pure trivial

/-- **The record is processed to its end**, if and only if the names that matter were met. -/
theorem yields_process_iff {request : Request} (h : Tabled request) {r : Parser} (record : Decoded r) (s : P.State) :
    Yields (request.process r : Prog P _) s (fun _ => True) ↔ NamesMet P request r s := by
  by_cases params : AcceptsParams request ∧ r.messageHeader.type = typeParams
  · obtain ⟨accepts, type⟩ := params
    obtain ⟨qs, stored⟩ := record.params
    obtain ⟨state, process⟩ := process_params (P := P) accepts record.finished type
    have met : NamesMet P request r s ↔ Harmless P (extent request.parameters) (paramsContents [r]) s :=
      ⟨fun all => all accepts type, fun harmless _ _ => harmless⟩
    rw [process, met]
    by_cases empty : r.messageHeader.contentLength = 0
    · rw [if_pos empty, record.paramsContents fun _ => empty]
      exact ⟨fun _ => trivial, fun _ => ⟨_, _, rfl, trivial⟩⟩
    · rw [if_neg empty, paramsContents_stored type stored, stored]
      exact yields_appendParam_iff qs h
  · rw [not_and] at params
    exact ⟨fun _ accepts type => absurd type (params accepts), fun _ => ensures_process_other record h params s⟩

/-- Where memory does not run out, every parameter is spared. -/
theorem spared_of_succeeds (all : P.Succeeds) (pairs : List (List UInt8 × List UInt8)) :
    ∀ (e : Extent) (s : P.State), Spared P e pairs s := by
  induction pairs with
  | nil => exact fun _ _ => trivial
  | cons pair pairs ih =>
    intro e s
    obtain ⟨name, value⟩ := pair
    have named := all.meets (stringRequests name) s
    have valued : (pass P e name value s).valued = true := by
      rw [pass, if_pos named]
      exact all.meets _ _
    have safe : (pass P e name value s).dereferenced = false := by
      rw [pass, if_pos named]
    have made : (pass P e name value s).answered.made = true := by
      rw [pass, if_pos named]
      dsimp only
      rw [Extent.assign, if_pos (all.meets _ _), Extent.link]
      split
      · rfl
      · rw [if_pos (all.meets _ _)]
    exact ⟨safe, fun _ => valued, fun _ => made, ih _ _⟩

/-! ## Reachable requests -/

/-- `sl_fcgi_request_init` has been called. -/
def Started (request : Request) : Prop := ∃ size, 1 ≤ size ∧ size ≤ 2 ^ 32 ∧ request = .init size

/-- The requests that finished records lead to, whatever was met and refused. -/
abbrev ReachedRequest (P : Platform) : Request → Prop :=
  Reached Started fun request request' => ∃ (r : Parser) (s s' : P.State),
    FinishedRecord P r ∧ request.process r s = .ok (request', s')

theorem ReachedRequest.tabled {request : Request} (h : ReachedRequest P request) : Tabled request := by
  refine h.invariant ?_ ?_
  · rintro request ⟨size, least, most, rfl⟩
    exact ⟨[], .init least most true⟩
  · rintro request request' tabled ⟨r, s, s', record, run⟩
    exact (confined_process record.decoded tabled).returns _ _ _ run

/-- **No parameter is lost silently**, if and only if the answers spare all of them. -/
theorem params_kept_iff {request : Request} (reached : ReachedRequest P request) (accepts : AcceptsParams request) {r : Parser}
    (record : FinishedRecord P r) (type : r.messageHeader.type = typeParams) (s : P.State) :
    Kept P request r s ↔ Spared P (extent request.parameters) (paramsContents [r]) s := by
  obtain ⟨assignments, refines⟩ := reached.tabled
  exact kept_iff_spared refines accepts record.decoded type s

/-- The platform on which one request is refused. -/
def oneRefused (n : Nat) : Platform := Platform.refusing fun count => count = n

/-- So many requests have been answered. -/
def answered (n count : Nat) : (oneRefused n).State := count

theorem reached_begunOne (s : P.State) : ReachedRequest P begunOne := by
  have record : FinishedRecord P beginOne :=
    ⟨[1, 1, 0, 1, 0, 8, 0, 0, 0, 1, 0, 0, 0, 0, 0, 0], s, s, 16, by with_unfolding_all rfl, rfl⟩
  exact .step (.first ⟨64, by decide, by decide, rfl⟩) ⟨beginOne, s, s, record, rfl⟩

/-- Behind the refused request the parser has what it asks for. -/
theorem finished_paramRecord {n : Nat} (few : n < 6) : FinishedRecord (oneRefused n) (paramRecord 1) := by
  have run : ∀ n < 6, (Parser.init.parse [1, 4, 0, 1, 0, 4, 0, 0, 1, 1, 65, 66, 1] : Prog (oneRefused n) _).value (answered n 6) =
      .ok (paramRecord 1, 12) := by decide +kernel
  exact finishedRecord_of_value (run n few) rfl

theorem params_kept_iff_last_refused :
    Kept (oneRefused 5) begunOne (paramRecord 1) (answered 5 0) ↔
      Spared (oneRefused 5) (extent begunOne.parameters) (paramsContents [paramRecord 1]) (answered 5 0) :=
  params_kept_iff (reached_begunOne (answered 5 0)) (Or.inl rfl) (finished_paramRecord (by decide)) rfl (answered 5 0)

/-- The parameter is lost when this request is refused. -/
def Loses (n : Nat) : Prop :=
  ReachedRequest (oneRefused n) begunOne ∧ AcceptsParams begunOne ∧ FinishedRecord (oneRefused n) (paramRecord 1) ∧
    (paramRecord 1).messageHeader.type = typeParams ∧ ¬Kept (oneRefused n) begunOne (paramRecord 1) (answered n 0)

/-- Whichever of the six requests of a parameter is refused, the parameter is lost. -/
theorem loses_of_lt : ∀ n < 6, Loses n := by
  have spares : ∀ n < 6, ¬Spared (oneRefused n) (extent begunOne.parameters) (paramsContents [paramRecord 1]) (answered n 0) := by
    decide +kernel
  intro n few
  have record := finished_paramRecord few
  have accepts : AcceptsParams begunOne := Or.inl rfl
  refine ⟨reached_begunOne (answered n 0), accepts, record, rfl, fun kept => spares n few ?_⟩
  obtain ⟨assignments, refines⟩ := (reached_begunOne (answered n 0)).tabled
  exact (kept_iff_spared refines accepts record.decoded rfl _).mp kept

/-- The header of the name, that of the value, the array and the node. -/
theorem params_lost : Loses 0 ∧ Loses 2 ∧ Loses 4 ∧ Loses 5 :=
  ⟨loses_of_lt 0 (by decide), loses_of_lt 2 (by decide), loses_of_lt 4 (by decide), loses_of_lt 5 (by decide)⟩

end Cpptrw.Fcgi
