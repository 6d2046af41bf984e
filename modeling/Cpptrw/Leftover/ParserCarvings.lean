import Cpptrw.Leftover.Alignment

/-!
# What the parser carves

Whatever octets it is given, what `sl_fcgi_parser_parse` does to the arena is a
run of allocations for parameters, names, values, data, and the strings of its
log messages. `Traces` says so of a program; the rules follow how code is put
together, and then the functions that the parser is made of.
-/

namespace Cpptrw.Leftover

open Lib Arena Fcgi
open Text hiding SlString
open Text.Sharing (SlString initWithBuffer)

variable {α β : Type} {S : Setting}

/-- What calls and rewinds leave of the server's arena. -/
abbrev ByCalls : Carved → Prop := Reached (Uncarved arenaPreallocate) (Carves fun _ _ => True)

theorem ByCalls.sound {s : Carved} (h : ByCalls s) : s.Sound := sound_of_reached (by decide) h

/-- Every `malloc` of a setting answers as it is assumed to. -/
def Setting.Mallocs (S : Setting) : Prop := ∀ call heap, Leftover.Mallocs (S.malloc call heap) heap

/-- The program goes on with such calls, and a value it returns is in `Q`. -/
def Traces (m : Code α) (Q : α → Prop) : Prop :=
  ∀ w s, ByCalls s → s.In w → ∃ s', ByCalls s' ∧ s'.In (m w).2 ∧ ∀ x, (m w).1 = .ok x → Q x

/-- Behind a pass of a loop. -/
def LoopPass (inv : α → Prop) (last : β → Prop) : Prog.Flow α β → Prop
  | .done y => last y
  | .next x => inv x

/-- The length of a record has 16 bits. -/
def Brief (p : Parser) : Prop := p.messageHeader.contentLength < 2 ^ 16

/-- Behind a pass of the parser's loops. -/
abbrev BriefPass : Prog.Flow Parser Parser → Prop := LoopPass Brief Brief

/-- Behind an octet. -/
def BriefVerdict : Verdict Parser → Prop
  | .advance p => Brief p
  | .finish p => Brief p
  | .stop p => Brief p

namespace Traces

variable {m : Code α} {f : α → Code β} {Q : α → Prop} {R : β → Prop}

/-- What leaves the arena as it is. -/
theorem of_same (same : ∀ w, (m w).2.arena = w.arena ∧ (m w).2.heap = w.heap ∧ (m w).2.regions = w.regions ∧ (m w).2.purposes = w.purposes)
    (value : ∀ w x, (m w).1 = .ok x → Q x) : Traces m Q := by
  intro w s calls here
  obtain ⟨arena, heap, regions, purposes⟩ := same w
  refine ⟨s, calls, ⟨arena.trans here.arena, heap.trans here.heap, regions.trans here.regions, ?_⟩, value w⟩
  exact purposes.trans here.purposes

theorem pure {x : α} (h : Q x) : Traces (Pure.pure x) Q := by
  apply of_same
  · exact fun _ => ⟨rfl, rfl, rfl, rfl⟩
  · intro w y same
    cases same
    exact h

theorem fault (e : Fault) : Traces (Machine.fault e : Code α) Q := by
  apply of_same
  · exact fun _ => ⟨rfl, rfl, rfl, rfl⟩
  · intro w x same
    cases same

theorem lift (r : Except Fault α) : Traces (Machine.lift r) fun _ => True :=
  of_same (fun _ => ⟨rfl, rfl, rfl, rfl⟩) fun _ _ _ => trivial

theorem bind (first : Traces m Q) (next : ∀ x, Q x → Traces (f x) R) : Traces (m >>= f) R := by
  intro w s calls here
  obtain ⟨s', calls', here', value⟩ := first w s calls here
  rw [Machine.bind_apply]
  generalize m w = r at here' value
  obtain ⟨result, w'⟩ := r
  cases result with
  | error e => exact ⟨s', calls', here', fun x same => by cases same⟩
  | ok x => exact next x (value x rfl) w' s' calls' here'

theorem mono {Q' : α → Prop} (h : Traces m Q) (weaken : ∀ x, Q x → Q' x) : Traces m Q' := by
  intro w s calls here
  obtain ⟨s', calls', here', value⟩ := h w s calls here
  exact ⟨s', calls', here', fun x same => weaken x (value x same)⟩

theorem when {c : Prop} [Decidable c] {m : Code Unit} (h : Traces m fun _ => True) : Traces (Machine.when c m) fun _ => True := by
  unfold Machine.when
  split
  · exact h
  · exact .pure trivial

/-- What every pass of a loop keeps. -/
theorem whileLoop {step : α → Code (Prog.Flow α β)} {inv : α → Prop} (pass : ∀ x, inv x → Traces (step x) (LoopPass inv R)) :
    ∀ (fuel : Nat) (x : α), inv x → Traces (Machine.whileLoop step fuel x) R
  | 0, _, _ => .fault _
  | fuel + 1, x, here => by
    apply (pass x here).bind
    intro r after
    cases r with
    | done y => exact .pure after
    | next x => exact whileLoop pass fuel x after

/-- A loop of which nothing has to be kept. -/
theorem loop {step : α → Code (Prog.Flow α β)} (pass : ∀ x, Traces (step x) fun _ => True) (fuel : Nat) (x : α) :
    Traces (Machine.whileLoop step fuel x) fun _ => True := by
  have any : ∀ x, True → Traces (step x) (LoopPass (fun _ => True) fun _ => True) := by
    intro x _
    apply (pass x).mono
    intro r _
    cases r <;> trivial
  exact whileLoop any fuel x trivial

/-! ## Operations -/

theorem load (pointer offset size : Nat) : Traces (load S pointer offset size) fun octets => octets.length = size := by
  apply of_same
  · intro w
    unfold Leftover.load
    split
    · exact ⟨rfl, rfl, rfl, rfl⟩
    · split
      · exact ⟨rfl, rfl, rfl, rfl⟩
      · split <;> exact ⟨rfl, rfl, rfl, rfl⟩
  · intro w octets same
    unfold Leftover.load at same
    split at same
    · rename_i empty
      cases same
      exact empty.symm
    · split at same
      · cases same
      · split at same
        · cases same
          exact Memory.length_read ..
        · cases same

theorem load64 (pointer offset : Nat) : Traces (load64 S pointer offset) fun _ => True :=
  (load pointer offset 8).bind fun _ _ => .pure trivial

theorem load32 (pointer offset : Nat) : Traces (load32 S pointer offset) fun value => value < 2 ^ 32 := by
  apply (load pointer offset 4).bind
  intro octets length
  have bound := ofOctets_lt octets
  rw [length] at bound
  exact .pure bound

theorem store (pointer offset : Nat) (octets : List UInt8) : Traces (store S pointer offset octets) fun _ => True := by
  apply of_same
  · intro w
    unfold Leftover.store
    split
    · exact ⟨rfl, rfl, rfl, rfl⟩
    · split
      · exact ⟨rfl, rfl, rfl, rfl⟩
      · split <;> exact ⟨rfl, rfl, rfl, rfl⟩
  · exact fun _ _ _ => trivial

/-- One call. -/
theorem allocate (mallocs : S.Mallocs) (use : Use) : Traces (allocate S use.purpose use.size) fun _ => True := by
  intro w s calls here
  obtain ⟨pointer, w', s', run, step, -, here', -⟩ := allocate_carves calls.sound here (mallocs w.calls w.heap) use
  rw [run]
  exact ⟨s', .step calls step, here', fun _ _ => trivial⟩

/-! ## Strings and the log -/

theorem source (source : Source) : Traces (source.load S) fun _ => True := by
  cases source with
  | memory pointer length => exact (load pointer 0 length).mono fun _ _ => trivial
  | literal octets => exact .pure trivial

theorem loadString (pointer : Nat) : Traces (loadString S pointer) fun _ => True := by
  apply (load64 pointer 0).bind
  intro allocated _
  apply (load64 pointer 8).bind
  intro length _
  apply (load64 pointer 16).bind
  intro buffer _
  exact .pure trivial

theorem storeString (pointer : Nat) (string : SlString) : Traces (storeString S pointer string) fun _ => True := store pointer 0 _

theorem push (pointer : Nat) (octet : UInt8) : Traces (push S pointer octet) fun _ => True := by
  apply (loadString pointer).bind
  intro string _
  apply (store _ _ _).bind
  intro _ _
  exact storeString _ _

theorem createFromBuffer (mallocs : S.Mallocs) (source : Source) (preallocate : Nat) :
    Traces (createFromBuffer S source preallocate) fun _ => True := by
  apply (allocate mallocs .string).bind
  intro string _
  split
  · exact .pure trivial
  · apply (allocate mallocs (.characters _)).bind
    intro buffer _
    split
    · exact .pure trivial
    · apply (Traces.source source).bind
      intro octets _
      apply (store _ _ _).bind
      intro _ _
      apply (storeString _ _).bind
      intro _ _
      exact .pure trivial

theorem appendWithBuffer (mallocs : S.Mallocs) (string : SlString) (source : Source) :
    Traces (appendWithBuffer S string source) fun _ => True := by
  unfold Leftover.appendWithBuffer
  split
  · apply (Traces.source source).bind
    intro octets _
    apply (store _ _ _).bind
    intro _ _
    exact .pure trivial
  · apply (allocate mallocs (.characters _)).bind
    intro buffer _
    split
    · exact .pure trivial
    · apply (load _ _ _).bind
      intro octets _
      apply (Traces.source source).bind
      intro octets' _
      apply (store _ _ _).bind
      intro _ _
      exact .pure trivial

theorem appendTo (mallocs : S.Mallocs) (pointer : Nat) (source : Source) : Traces (appendTo S pointer source) fun _ => True := by
  apply (loadString pointer).bind
  intro string _
  apply (appendWithBuffer mallocs string source).bind
  intro appended _
  cases appended with
  | none => exact .pure trivial
  | some string =>
    apply (storeString _ _).bind
    intro _ _
    exact .pure trivial

theorem appendArgument (mallocs : S.Mallocs) (pointer : Nat) (source : Source) (arguments : List Argument) :
    Traces (appendArgument S pointer source arguments) fun _ => True := by
  apply (appendTo mallocs pointer source).bind
  intro _ _
  exact .pure trivial

theorem formatDirective (mallocs : S.Mallocs) (pointer : Nat) (octet : UInt8) (arguments : List Argument) :
    Traces (formatDirective S pointer octet arguments) fun _ => True := by
  unfold Leftover.formatDirective
  split
  · split
    · apply (lift _).bind
      intro r _
      apply (lift _).bind
      intro digits _
      exact appendArgument mallocs _ _ _
    · exact .fault _
  · split
    · split
      · exact .pure trivial
      · exact appendArgument mallocs _ _ _
      · exact .fault _
    · split
      · split
        · exact appendArgument mallocs _ _ _
        · split
          · exact .pure trivial
          · apply (loadString _).bind
            intro argument _
            exact appendArgument mallocs _ _ _
        · exact .fault _
      · exact .pure trivial

theorem formatPass (mallocs : S.Mallocs) (pointer : Nat) (f : Formatting) : Traces (formatPass S pointer f) fun _ => True := by
  unfold Leftover.formatPass
  split
  · exact .pure trivial
  · split
    · exact .fault _
    · split
      · apply (push _ _).bind
        intro _ _
        exact .pure trivial
      · split
        · exact .fault _
        · apply (formatDirective mallocs _ _ _).bind
          intro arguments _
          cases arguments with
          | none => exact .pure trivial
          | some arguments => exact .pure trivial

theorem format (mallocs : S.Mallocs) (fmt : CString) (arguments : List Argument) :
    Traces (Leftover.format S fmt arguments) fun _ => True := by
  apply (createFromBuffer mallocs _ _).bind
  intro string _
  split
  · exact .pure trivial
  · apply (loop (formatPass mallocs string) _ _).bind
    intro complete _
    exact .pure trivial

theorem logWriteFormat (mallocs : S.Mallocs) (fmt : CString) (arguments : List Argument) :
    Traces (logWriteFormat S fmt arguments) fun _ => True := by
  apply (format mallocs fmt arguments).bind
  intro message _
  split
  · exact .pure trivial
  · apply (loadString _).bind
    intro _ _
    exact .pure trivial

/-! ## The parser -/

variable {p : Parser}

/-- The call for a name, a value or the octets of stdin. -/
theorem allocateData (mallocs : S.Mallocs) {length : Nat} (bound : length < 2 ^ 32) :
    Traces (Leftover.allocate S .data (length + 1)) fun _ => True := by
  have size : (Use.data (UInt32.ofNat length)).size = length + 1 := by
    rw [Use.size, UInt32.toNat_ofNat_of_lt' bound]
  exact size ▸ allocate mallocs (.data (UInt32.ofNat length))

theorem storeLength (param : Nat) (fields : Nat × Nat) (octet : UInt8) :
    Traces (Parser.storeLength S param fields octet) fun _ => True := by
  unfold Parser.storeLength
  split
  all_goals
    apply (store _ _ _).bind
    intro _ _
    exact .pure trivial

theorem paramNameLengthB3 (mallocs : S.Mallocs) (brief : Brief p) (octet : UInt8) : Traces (p.paramNameLengthB3 S octet) BriefPass := by
  apply (allocate mallocs .param).bind
  intro param _
  split
  · exact .pure brief
  · apply (store _ _ _).bind
    intro _ _
    apply (Traces.when (store _ _ _)).bind
    intro _ _
    apply (storeLength _ _ _).bind
    intro _ _
    exact .pure brief

theorem paramValueLengthB3 (brief : Brief p) (octet : UInt8) : Traces (p.paramValueLengthB3 S octet) BriefPass := by
  apply (storeLength _ _ _).bind
  intro _ _
  exact .pure brief

theorem paramLength (brief : Brief p) (fields : Nat × Nat) (octet : UInt8) (shift : Nat) (next : ParserState) :
    Traces (Parser.paramLength S fields octet shift next p) BriefPass := by
  apply (load32 _ _).bind
  intro _ _
  apply (store _ _ _).bind
  intro _ _
  exact .pure brief

theorem openData (mallocs : S.Mallocs) (brief : Brief p) (fields : Nat × Nat) :
    Traces (Parser.openData S fields p) fun opened => ∀ p', opened = some p' → Brief p' := by
  apply (load64 _ _).bind
  intro data _
  split
  · apply (load32 _ _).bind
    intro length bound
    apply (allocateData mallocs bound).bind
    intro data _
    apply (store _ _ _).bind
    intro _ _
    split
    · exact .pure fun _ none => nomatch none
    · exact .pure fun _ same => Option.some.inj same ▸ brief
  · exact .pure fun _ same => Option.some.inj same ▸ brief

theorem paramNameData (mallocs : S.Mallocs) (brief : Brief p) (octet : UInt8) : Traces (p.paramNameData S octet) BriefPass := by
  apply (openData mallocs brief _).bind
  intro opened opens
  cases opened with
  | none => exact .pure brief
  | some p' =>
    have brief : Brief p' := opens p' rfl
    apply (load32 _ _).bind
    intro nameLength _
    apply (load64 _ _).bind
    intro name _
    split
    all_goals
      apply (store _ _ _).bind
      intro _ _
      exact .pure brief

theorem afterPair (brief : Brief p) : BriefPass p.afterPair := by
  unfold Parser.afterPair
  split
  · split <;> exact brief
  · exact brief

theorem paramValueData (mallocs : S.Mallocs) (brief : Brief p) (octet : UInt8) : Traces (p.paramValueData S octet) BriefPass := by
  apply (openData mallocs brief _).bind
  intro opened opens
  cases opened with
  | none => exact .pure brief
  | some p' =>
    have brief : Brief p' := opens p' rfl
    apply (load32 _ _).bind
    intro valueLength _
    apply (load64 _ _).bind
    intro value _
    split
    · apply (store _ _ _).bind
      intro _ _
      apply (load32 _ _).bind
      intro nameLength _
      apply (load64 _ _).bind
      intro name _
      apply (logWriteFormat mallocs _ _).bind
      intro _ _
      exact .pure (afterPair brief)
    · apply (store _ _ _).bind
      intro _ _
      exact .pure brief

theorem paramsSwitch (mallocs : S.Mallocs) (octet : UInt8) (p : Parser) (brief : Brief p) :
    Traces (p.paramsSwitch S octet) BriefPass := by
  unfold Parser.paramsSwitch
  split
  · exact paramNameLengthB3 mallocs brief octet
  · exact paramLength brief _ _ _ _
  · exact paramLength brief _ _ _ _
  · exact paramLength brief _ _ _ _
  · exact paramValueLengthB3 brief octet
  · exact paramLength brief _ _ _ _
  · exact paramLength brief _ _ _ _
  · exact paramLength brief _ _ _ _
  · exact paramNameData mallocs brief octet
  · exact paramValueData mallocs brief octet
  · exact .pure brief
  · exact .pure brief

theorem stdinOctet (mallocs : S.Mallocs) (brief : Brief p) (octet : UInt8) : Traces (p.stdinOctet S octet) BriefPass := by
  have opens : Traces (p.openStdin S) fun opened => ∀ p', opened = some p' → Brief p' := by
    unfold Parser.openStdin
    split
    · apply (allocateData mallocs (Nat.lt_trans brief (by decide))).bind
      intro data _
      split
      · exact .pure fun _ none => nomatch none
      · exact .pure fun _ same => Option.some.inj same ▸ brief
    · exact .pure fun _ same => Option.some.inj same ▸ brief
  apply opens.bind
  intro opened opens
  cases opened with
  | none => exact .pure brief
  | some p' =>
    have brief : Brief p' := opens p' rfl
    dsimp only
    split
    · apply (store _ _ _).bind
      intro _ _
      apply (logWriteFormat mallocs _ _).bind
      intro _ _
      apply Traces.pure
      unfold Parser.afterStdin
      split <;> exact brief
    · apply (store _ _ _).bind
      intro _ _
      exact .pure brief

theorem stdinSwitch (mallocs : S.Mallocs) (octet : UInt8) (p : Parser) (brief : Brief p) :
    Traces (p.stdinSwitch S octet) BriefPass := by
  unfold Parser.stdinSwitch
  split
  · exact stdinOctet mallocs brief octet
  · exact .pure brief
  · exact .pure brief

theorem lookahead (brief : Brief p) : BriefVerdict p.lookahead := by
  unfold Parser.lookahead
  split <;> exact brief

theorem parseOctet (mallocs : S.Mallocs) (brief : Brief p) (octet : UInt8) : Traces (p.parseOctet S octet) BriefVerdict := by
  have word : octet.toNat < 2 ^ 8 := octet.toNat_lt
  have high : octet.toNat <<< 8 < 2 ^ 16 := by
    rw [Nat.shiftLeft_eq]
    omega
  have params : Traces (p.parseParams S octet >>= fun p => Pure.pure p.lookahead) BriefVerdict :=
    (whileLoop (paramsSwitch mallocs octet) _ p brief).bind fun _ brief => .pure (lookahead brief)
  have stdin : Traces (p.parseStdin S octet >>= fun p => Pure.pure p.lookahead) BriefVerdict :=
    (whileLoop (stdinSwitch mallocs octet) _ p brief).bind fun _ brief => .pure (lookahead brief)
  unfold Parser.parseOctet
  cases p.state with
  | contentLengthB1 => exact .pure high
  | contentLengthB0 => exact .pure (Nat.or_lt_two_pow brief (Nat.lt_trans word (by decide)))
  | paddingReserved =>
    dsimp only
    split <;> exact .pure brief
  | beginRoleB1 | beginRoleB0 | beginFlags | beginSkip5 | beginSkip4 | beginSkip3 | beginSkip2 | beginSkip1 =>
    apply Traces.pure
    change Brief (p.parseBeginRequest octet)
    unfold Parser.parseBeginRequest
    split <;> exact brief
  | paramNameLengthB3 | paramNameLengthB2 | paramNameLengthB1 | paramNameLengthB0 => exact params
  | paramValueLengthB3 | paramValueLengthB2 | paramValueLengthB1 | paramValueLengthB0 => exact params
  | paramNameData | paramValueData | paramPadding => exact params
  | stdinData | stdinPadding => exact stdin
  | _ => exact .pure brief

/-- Octet by octet. -/
theorem parse (mallocs : S.Mallocs) (octets : List UInt8) :
    ∀ p, Brief p → Traces (Parser.parse S p octets) fun r => Brief r.1 := by
  induction octets with
  | nil => exact fun p brief => .pure brief
  | cons octet rest ih =>
    intro p brief
    apply (parseOctet mallocs brief octet).bind
    intro verdict brief
    cases verdict with
    | advance p =>
      apply (ih p brief).bind
      intro r brief
      exact .pure brief
    | finish p => exact .pure brief
    | stop p => exact .pure brief

end Traces

/-- **Whatever octets come**, the arena that they leave is one that calls and rewinds lead to; and a new
parameter in it is aligned if and only if it fits. -/
theorem parse_byCalls (mallocs : S.Mallocs) {s : Carved} {w : World} (calls : ByCalls s) (here : s.In w) {p : Parser} (brief : Brief p)
    (octets : List UInt8) :
    ∃ s', ByCalls s' ∧ s'.In (p.parse S octets w).2 ∧ ∀ r, (p.parse S octets w).1 = .ok r → Brief r.1 ∧
      ∀ octet p' w', r.1.paramNameLengthB3 S octet (p.parse S octets w).2 = (.ok (.done p'), w') → p'.state ≠ .error →
        (8 ∣ p'.lastParam ↔ Fits s' .param) := by
  obtain ⟨s', calls', here', value⟩ := Traces.parse mallocs octets p brief w s calls here
  refine ⟨s', calls', here', fun r same => ⟨value r same, fun octet p' w' run met => ?_⟩⟩
  exact lastParam_aligned_iff calls'.sound here' (mallocs _ _) run met

end Cpptrw.Leftover
