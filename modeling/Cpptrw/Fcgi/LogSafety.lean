import Cpptrw.Fcgi.Parser
import Cpptrw.Text.Capacity

/-!
# Log lines that fit (`sl_fcgi.c`, `main.c`)

A log line is formatted in a string of its own, and nothing looks at the room
for a literal octet. Of the lines that the program writes, one runs over on an
octet stream: the line of a parameter, whose equals sign comes when the string
is full, if the name has 48 octets. What the parser has read tells whether that
has happened: the name lengths that are complete are never lost again.
-/

namespace Cpptrw.Text.SafeFrom

open Lib Arena SlString

variable {s : SlString} {ps : List Piece} {octets : List UInt8}

theorem literals_behind {run : List UInt8} (room : s.length + run.length ≤ s.allocated)
    (behind : SafeFrom { s with octets := s.octets ++ run } ps) : SafeFrom s (literals run ++ ps) := by
  induction run generalizing s with
  | nil => simpa [literals] using behind
  | cons octet run ih =>
    rw [List.length_cons] at room
    refine ⟨by omega, ih ?_ ?_⟩
    · rw [length_push, allocated_push]
      omega
    · simpa [SlString.push] using behind

/-- Behind an argument there is the old room, or at least twice what is used. -/
theorem argument_behind (room : s.length ≤ s.allocated) (small : s.length + octets.length ≤ 2 ^ 62)
    (behind : ∀ allocated, s.length + octets.length ≤ s.allocated ∧ allocated = s.allocated ∨
      s.allocated < s.length + octets.length ∧ 2 * (s.length + octets.length) ≤ allocated →
        SafeFrom ⟨allocated, s.octets ++ octets⟩ ps) : SafeFrom s (.argument octets :: ps) := by
  refine ⟨room, ?_⟩
  unfold appended
  split
  · rename_i fits
    exact behind s.allocated (Or.inl ⟨fits, rfl⟩)
  · refine behind _ (Or.inr ⟨by omega, ?_⟩)
    have twice : wrap64 ((s.length + octets.length) <<< 1) = 2 * (s.length + octets.length) := by
      rw [Nat.shiftLeft_eq, wrap64_of_lt (by omega)]
      omega
    rw [grownSize, twice]
    exact le_pow2Size (by omega)

end Cpptrw.Text.SafeFrom

namespace Cpptrw.Fcgi

open Lib Text Arena

/-- The string that a line is formatted in. -/
abbrev lineStart (fmt : CString) : Text.SlString := ⟨SlString.grownSize fmt.octets.length, []⟩

theorem le_grown {n : Nat} (small : n ≤ 2 ^ 62) : 2 * n ≤ SlString.grownSize n := by
  have twice : wrap64 (n <<< 1) = 2 * n := by
    rw [Nat.shiftLeft_eq, wrap64_of_lt (by omega)]
    omega
  rw [SlString.grownSize, twice]
  exact le_pow2Size (by omega)

theorem grownSize_parameter : SlString.grownSize parameterFormat.octets.length = 64 := by
  rw [show parameterFormat.octets.length = 21 by decide, SlString.grownSize, show wrap64 (21 <<< 1) = 42 by decide]
  exact (pow2Size_of_range (by decide) (by decide)).1.trans (by decide)

theorem parameter_safe {name value : List UInt8} (other : name.length ≠ 48) (small : name.length < 2 ^ 32 ∧ value.length < 2 ^ 32) :
    SafeFrom (lineStart parameterFormat)
      (literals (octetsOf "FCGI parameter: ") ++ .argument name :: (literals (octetsOf "=") ++ [.argument value])) := by
  have front : (octetsOf "FCGI parameter: ").length = 16 := by decide
  have sign : (octetsOf "=").length = 1 := by decide
  rw [lineStart, grownSize_parameter]
  apply SafeFrom.literals_behind
  · simp only [SlString.length, List.length_nil, front]
    decide
  apply SafeFrom.argument_behind
  · simp only [SlString.length, List.nil_append, front]
    decide
  · simp only [SlString.length, List.nil_append, front]
    omega
  intro allocated room
  simp only [SlString.length, List.nil_append, front] at room
  apply SafeFrom.literals_behind
  · simp only [SlString.length, List.nil_append, List.length_append, front, sign]
    omega
  apply SafeFrom.argument_behind
  · simp only [SlString.length, List.nil_append, List.length_append, front, sign]
    omega
  · simp only [SlString.length, List.nil_append, List.length_append, front, sign]
    omega
  intro allocated' room'
  simp only [SlString.length, List.nil_append, List.length_append, front, sign] at room'
  simp only [SafeFrom, SlString.length, List.nil_append, List.length_append, front, sign]
  omega

theorem stdin_safe {data : List UInt8} (small : data.length < 2 ^ 32) :
    SafeFrom (lineStart stdinFormat) (literals (octetsOf "FCGI stdin: ") ++ [.argument data]) := by
  have front : (octetsOf "FCGI stdin: ").length = 12 := by decide
  have room := @le_grown stdinFormat.octets.length (by decide)
  rw [show stdinFormat.octets.length = 14 by decide] at room
  apply SafeFrom.literals_behind
  · simp only [SlString.length, List.length_nil, front]
    exact le_trans (by decide) room
  apply SafeFrom.argument_behind
  · simp only [SlString.length, List.nil_append, front]
    exact le_trans (by decide) room
  · simp only [SlString.length, List.nil_append, front]
    omega
  intro allocated more
  simp only [SlString.length, List.nil_append, front] at more
  simp only [SafeFrom, SlString.length, List.nil_append, List.length_append, front]
  omega

/-- A line with a number, as long as it is not the number that makes the string grow. -/
theorem number_safe_iff {fmt : CString} {front back : List UInt8} {n : Nat}
    (fits : front.length + (decimal n).length ≤ SlString.grownSize fmt.octets.length) :
    SafeFrom (lineStart fmt) (literals front ++ .argument (decimal n) :: literals back) ↔
      front.length + (decimal n).length + back.length ≤ SlString.grownSize fmt.octets.length := by
  have appended : (⟨SlString.grownSize fmt.octets.length, front⟩ : Text.SlString).appended (decimal n) =
      ⟨SlString.grownSize fmt.octets.length, front ++ decimal n⟩ := if_pos fits
  rw [← List.append_nil (literals back)]
  constructor
  · intro safe
    have behind := safe.after_literals.2
    rw [List.nil_append, appended] at behind
    have room := behind.after_literals.room
    simpa [SlString.length, Nat.add_assoc] using room
  · intro room
    apply SafeFrom.literals_behind
    · simp only [SlString.length, List.length_nil]
      omega
    refine ⟨?_, ?_⟩
    · simp only [SlString.length, List.nil_append]
      omega
    rw [List.nil_append, appended]
    apply SafeFrom.literals_behind
    · simp only [SlString.length, List.length_append]
      omega
    simp only [SafeFrom, SlString.length, List.length_append]
    omega

theorem grownSize_parsed : SlString.grownSize parsedFormat.octets.length = 32 := by
  rw [show parsedFormat.octets.length = 15 by decide, SlString.grownSize, show wrap64 (15 <<< 1) = 30 by decide]
  exact (pow2Size_of_range (by decide) (by decide)).1.trans (by decide)

theorem parsed_safe_iff (n : UInt64) : SafeFrom (lineStart parsedFormat)
    (literals (octetsOf "Parsed ") ++ .argument (decimal n.toNat) :: literals (octetsOf " bytes")) ↔ n.toNat < 10 ^ 19 := by
  have front : (octetsOf "Parsed ").length = 7 := by decide
  have back : (octetsOf " bytes").length = 6 := by decide
  have digits := length_decimal_le n.toNat_lt
  rw [number_safe_iff (by rw [grownSize_parsed]; omega), grownSize_parsed, front, back,
    ← Nat.digits_length_le_iff (by decide : 1 < 10) n.toNat, ← length_decimal]
  omega

theorem received_safe (n : UInt64) : SafeFrom (lineStart receivedFormat)
    (literals (octetsOf "Received ") ++ .argument (decimal n.toNat) :: literals (octetsOf " bytes")) := by
  have front : (octetsOf "Received ").length = 9 := by decide
  have back : (octetsOf " bytes").length = 6 := by decide
  have room : SlString.grownSize receivedFormat.octets.length = 64 := by
    rw [show receivedFormat.octets.length = 17 by decide, SlString.grownSize, show wrap64 (17 <<< 1) = 34 by decide]
    exact (pow2Size_of_range (by decide) (by decide)).1.trans (by decide)
  have digits := length_decimal_le n.toNat_lt
  rw [number_safe_iff (by rw [room]; omega), room]
  omega

theorem sent_safe (n : UInt64) : SafeFrom (lineStart sentFormat)
    (literals (octetsOf "Sent ") ++ .argument (decimal n.toNat) :: literals (octetsOf " bytes response")) := by
  have front : (octetsOf "Sent ").length = 5 := by decide
  have back : (octetsOf " bytes response").length = 15 := by decide
  have room := @le_grown sentFormat.octets.length (by decide)
  rw [show sentFormat.octets.length = 22 by decide] at room
  have digits := length_decimal_le n.toNat_lt
  rw [number_safe_iff] <;> rw [show sentFormat.octets.length = 22 by decide] <;> omega

/-- A name of 48 octets fills the string. -/
theorem parameter_safe_iff {name value : List UInt8} (small : name.length < 2 ^ 32 ∧ value.length < 2 ^ 32) :
    SafeFrom (lineStart parameterFormat) (literals (octetsOf "FCGI parameter: ") ++
      .argument name :: (literals (octetsOf "=") ++ [.argument value])) ↔ name.length ≠ 48 := by
  refine ⟨fun safe full => ?_, fun other => parameter_safe other small⟩
  have front : (octetsOf "FCGI parameter: ").length = 16 := by decide
  have fits : (⟨64, octetsOf "FCGI parameter: "⟩ : Text.SlString).length + name.length ≤ 64 := by
    rw [SlString.length, front, full]
  rw [lineStart, grownSize_parameter] at safe
  have behind := safe.after_literals.2
  rw [List.nil_append, SlString.appended, if_pos fits] at behind
  have sign := behind.after_literals.room
  rw [SlString.length, List.length_append, List.length_append, front, full, show (octetsOf "=").length = 1 by decide] at sign
  dsimp only at sign
  omega

/-! ## Runs -/

section Runs

variable {P : Platform} {s₀ : P.State} {fmt : CString} {arguments : List Argument} {ps : List Piece}

/-- Nothing of a run that goes on safely is stored behind a buffer. -/
theorem capacitySafe_of_safe (matching : Matching fmt.octets arguments ps) (safe : SafeFrom (lineStart fmt) ps) {f : Formatting} {s : P.State}
    (reached : FormatReach P s₀ fmt arguments f s) : f.CapacitySafe := by
  have state : SafeState f := by
    induction reached with
    | enter run => exact ⟨_, _, _, _, enter_before run _, matching, safe⟩
    | pass _ run ih => exact ih.pass run
  exact state.capacitySafe

/-- If memory is never refused, a run goes on safely only then. -/
theorem safe_of_capacitySafe (all : P.Succeeds) (matching : Matching fmt.octets arguments ps)
    (safe : ∀ f s, FormatReach P s₀ fmt arguments f s → f.CapacitySafe) : SafeFrom (lineStart fmt) ps := by
  obtain ⟨string, s, run, created⟩ := SlString.ensures_createFromBuffer [] (wrap64 (fmt.octets.length <<< 1)) s₀
  cases string with
  | none => exact absurd all created
  | some string =>
    have reached : FormatReach P s₀ fmt arguments _ s := .enter run
    rw [enter_before run] at reached
    exact safeFrom_of_reach all safe _ rfl reached matching

end Runs

/-- **Which log lines run over their buffers.** The line of a parameter stores an octet behind its buffer if
and only if the name has 48 octets, and the line of the octets parsed if and only if their number has 20
digits. The other lines of a connection never do. -/
theorem log_lines_capacity {P : Platform} (all : P.Succeeds) (s₀ : P.State) :
    (∀ name value : List UInt8, name.length < 2 ^ 32 → value.length < 2 ^ 32 →
      ((∀ f s, FormatReach P s₀ parameterFormat [.string (some name), .string (some value)] f s → f.CapacitySafe) ↔ name.length ≠ 48)) ∧
    (∀ n : UInt64, (∀ f s, FormatReach P s₀ parsedFormat [.number n] f s → f.CapacitySafe) ↔ n.toNat < 10 ^ 19) ∧
    (∀ data : List UInt8, data.length < 2 ^ 32 → ∀ f s, FormatReach P s₀ stdinFormat [.string (some data)] f s → f.CapacitySafe) ∧
    (∀ n : UInt64, ∀ f s, FormatReach P s₀ receivedFormat [.number n] f s → f.CapacitySafe) ∧
    ∀ n : UInt64, ∀ f s, FormatReach P s₀ sentFormat [.number n] f s → f.CapacitySafe := by
  refine ⟨fun name value shortName shortValue => ?_, fun n => ?_, fun data short f s reached => ?_, fun n f s reached => ?_,
    fun n f s reached => ?_⟩
  · rw [← parameter_safe_iff ⟨shortName, shortValue⟩]
    exact ⟨safe_of_capacitySafe all (parameter_matching name value), fun safe f s => capacitySafe_of_safe (parameter_matching name value) safe⟩
  · rw [← parsed_safe_iff]
    exact ⟨safe_of_capacitySafe all (parsed_matching n), fun safe f s => capacitySafe_of_safe (parsed_matching n) safe⟩
  · exact capacitySafe_of_safe (stdin_matching data) (stdin_safe short) reached
  · exact capacitySafe_of_safe (received_matching n) (received_safe n) reached
  · exact capacitySafe_of_safe (sent_matching n) (sent_safe n) reached

theorem log_lines_capacity_ample :
    (∀ name value : List UInt8, name.length < 2 ^ 32 → value.length < 2 ^ 32 →
      ((∀ f s, FormatReach Platform.ample () parameterFormat [.string (some name), .string (some value)] f s → f.CapacitySafe) ↔
        name.length ≠ 48)) ∧
    (∀ n : UInt64, (∀ f s, FormatReach Platform.ample () parsedFormat [.number n] f s → f.CapacitySafe) ↔ n.toNat < 10 ^ 19) ∧
    (∀ data : List UInt8, data.length < 2 ^ 32 →
      ∀ f s, FormatReach Platform.ample () stdinFormat [.string (some data)] f s → f.CapacitySafe) ∧
    (∀ n : UInt64, ∀ f s, FormatReach Platform.ample () receivedFormat [.number n] f s → f.CapacitySafe) ∧
    ∀ n : UInt64, ∀ f s, FormatReach Platform.ample () sentFormat [.number n] f s → f.CapacitySafe :=
  log_lines_capacity Platform.ample_succeeds ()

/-! ## Name lengths -/

namespace Parser

open Lib.Prog

variable {P : Platform} {p q : Parser} {param : MsgParam}

/-- The length of the last name is being read. -/
def InNameLength (p : Parser) : Prop := p.state = .paramNameLengthB2 ∨ p.state = .paramNameLengthB1 ∨ p.state = .paramNameLengthB0

instance : DecidablePred InNameLength := fun _ => inferInstanceAs (Decidable (_ ∨ _))

/-- The name lengths that are complete. -/
def nameLengths (p : Parser) : List Nat := (if p.InNameLength then p.params.dropLast else p.params).map MsgParam.nameLength

/-- **What the parser log needs**: no name of 48 octets is logged. -/
def LogFits (p : Parser) : Prop := 48 ∉ p.nameLengths

/-- The name lengths of one parser are among those of another. -/
def Named (p q : Parser) : Prop := p.nameLengths ⊆ q.nameLengths

theorem Named.logFits (h : Named p q) (fits : q.LogFits) : p.LogFits := fun inside => fits (h inside)

/-- The parameters stay, and no length is begun. -/
theorem named_of_params (same : q.params = p.params) (complete : ¬q.InNameLength) : Named p q := by
  intro n
  unfold nameLengths
  rw [if_neg complete, same]
  split
  · exact fun inside => List.map_subset _ (List.dropLast_subset _) inside
  · exact id

theorem params_of_last (there : p.last = .ok param) : p.params = p.params.dropLast ++ [param] := by
  unfold last at there
  split at there
  · rename_i found
    cases there
    exact (List.dropLast_append_getLast? _ found).symm
  · cases there

/-- The last name length is replaced. -/
theorem named_setLast {param' : MsgParam} (there : p.last = .ok param) (same : q.params = p.params.dropLast ++ [param'])
    (lengths : p.InNameLength ∨ param'.nameLength = param.nameLength) (kept : q.InNameLength → p.InNameLength) : Named p q := by
  have whole := params_of_last there
  intro n
  unfold nameLengths
  rw [same]
  by_cases before : p.InNameLength
  · rw [if_pos before]
    split
    · rw [List.dropLast_concat]
      exact id
    · rw [List.map_append]
      exact fun inside => List.mem_append_left _ inside
  · rw [if_neg before, if_neg (mt kept before)]
    conv_lhs => rw [whole]
    rw [List.map_append, List.map_append, List.map_singleton, List.map_singleton, lengths.resolve_left before]
    exact id

/-- A parameter is added. -/
theorem named_concat {param' : MsgParam} (complete : ¬p.InNameLength) (same : q.params = p.params ++ [param']) : Named p q := by
  intro n
  unfold nameLengths
  rw [if_neg complete, same]
  split
  · rw [List.dropLast_concat]
    exact id
  · rw [List.map_append]
    exact fun inside => List.mem_append_left _ inside

theorem not_inNameLength {state : ParserState} (here : p.state = state)
    (other : state ∉ [.paramNameLengthB2, .paramNameLengthB1, .paramNameLengthB0]) : ¬p.InNameLength := by
  subst here
  simpa [InNameLength] using other

theorem Named.trans {r : Parser} (h : Named p q) (h' : Named q r) : Named p r := List.Subset.trans h h'

/-- The parser behind a pass. -/
def passed : Flow Parser Parser → Parser
  | .next p => p
  | .done p => p

/-- The parser behind an octet. -/
def behind : Verdict Parser → Parser
  | .advance p => p
  | .finish p => p
  | .stop p => p

theorem returns_last (p : Parser) : Returns (lift p.last : Prog P _) fun param => p.last = .ok param := by
  intro s param s' run
  generalize p.last = last at run
  cases last with
  | error e => cases run
  | ok param' =>
    cases run
    rfl

/-- Data of the last parameter are begun. -/
theorem returns_openName (p : Parser) :
    Returns (p.openName : Prog P _) fun r => ∀ q, r = some q → Named p q := by
  refine (returns_last p).bind fun param there => ?_
  split
  · refine (returns_any _).bind fun met _ => ?_
    split
    · refine returns_pure fun q same => ?_
      cases same
      exact named_setLast there rfl (Or.inr rfl) id
    · exact returns_pure nofun
  · refine returns_pure fun q same => ?_
    cases same
    exact List.Subset.refl _

theorem returns_openValue (p : Parser) :
    Returns (p.openValue : Prog P _) fun r => ∀ q, r = some q → Named p q := by
  refine (returns_last p).bind fun param there => ?_
  split
  · refine (returns_any _).bind fun met _ => ?_
    split
    · refine returns_pure fun q same => ?_
      cases same
      exact named_setLast there rfl (Or.inr rfl) id
    · exact returns_pure nofun
  · refine returns_pure fun q same => ?_
    cases same
    exact List.Subset.refl _

theorem named_afterPair (p : Parser) : Named p (passed p.afterPair) := by
  unfold afterPair
  split
  · split
    · exact named_of_params rfl (by simp [InNameLength, passed])
    · exact named_of_params rfl (by simp [InNameLength, passed])
  · exact named_of_params rfl (by simp [InNameLength, passed])

theorem nameLengths_afterPair (p : Parser) : (passed p.afterPair).nameLengths = p.params.map MsgParam.nameLength := by
  unfold afterPair nameLengths
  split_ifs <;> simp_all [InNameLength, passed]

theorem returns_paramNameData (octet : UInt8) (p : Parser) :
    Returns (p.paramNameData octet : Prog P _) fun r => Named p (passed r) := by
  refine (returns_openName p).bind fun r opened => ?_
  cases r with
  | none => exact returns_pure (named_of_params rfl (by simp [InNameLength, passed]))
  | some q =>
    have named := opened q rfl
    refine (returns_last q).bind fun param there => ?_
    split
    · refine (returns_any _).bind fun name _ => returns_pure (named.trans ?_)
      exact named_setLast there rfl (Or.inr rfl) (by simp [InNameLength, passed])
    · refine (returns_any _).bind fun name _ => returns_pure (named.trans ?_)
      exact named_setLast there rfl (Or.inr rfl) id

theorem returns_paramValueData (octet : UInt8) (p : Parser) :
    Returns (p.paramValueData octet : Prog P _) fun r => Named p (passed r) := by
  refine (returns_openValue p).bind fun r opened => ?_
  cases r with
  | none => exact returns_pure (named_of_params rfl (by simp [InNameLength, passed]))
  | some q =>
    have named := opened q rfl
    refine (returns_last q).bind fun param there => ?_
    split
    · refine (returns_any _).bind fun value _ => (returns_any _).bind fun _ _ => (returns_any _).bind fun _ _ => ?_
      refine (returns_any _).bind fun _ _ => returns_pure (named.trans (Named.trans ?_ (named_afterPair _)))
      exact named_setLast there rfl (Or.inr rfl) id
    · refine (returns_any _).bind fun value _ => returns_pure (named.trans ?_)
      exact named_setLast there rfl (Or.inr rfl) id

theorem returns_paramNameLengthB3 (octet : UInt8) (p : Parser) (here : p.state = .paramNameLengthB3) :
    Returns (p.paramNameLengthB3 octet : Prog P _) fun r => Named p (passed r) := by
  have complete : ¬p.InNameLength := not_inNameLength here (by decide)
  refine (returns_any _).bind fun met _ => ?_
  split
  · dsimp only
    split
    · exact returns_pure (named_concat complete rfl)
    · exact returns_pure (named_concat complete rfl)
  · exact returns_pure (named_of_params rfl (by simp [InNameLength, passed]))

theorem returns_paramValueLengthB3 (octet : UInt8) (p : Parser) :
    Returns (p.paramValueLengthB3 octet : Prog P _) fun r => Named p (passed r) := by
  refine (returns_last p).bind fun param there => ?_
  split
  · exact returns_pure (named_setLast there rfl (Or.inr rfl) (by simp [InNameLength, passed]))
  · exact returns_pure (named_setLast there rfl (Or.inr rfl) (by simp [InNameLength, passed]))

theorem returns_paramsSwitch (octet : UInt8) (p : Parser) : Returns (p.paramsSwitch octet : Prog P _) fun r => Named p (passed r) := by
  have name : p.InNameLength → ∀ shift next, Returns (p.paramNameLength octet shift next : Prog P _) fun r => Named p (passed r) :=
    fun here shift next => (returns_last p).bind fun param there => returns_pure (named_setLast there rfl (Or.inl here) fun _ => here)
  have value : ¬p.InNameLength → ∀ shift next, next ∉ [.paramNameLengthB2, .paramNameLengthB1, .paramNameLengthB0] →
      Returns (p.paramValueLength octet shift next : Prog P _) fun r => Named p (passed r) := fun complete shift next other =>
    (returns_last p).bind fun param there => returns_pure (named_setLast there rfl (Or.inr rfl) fun inside =>
      absurd inside (not_inNameLength rfl other))
  unfold paramsSwitch
  split <;> rename_i here
  · exact returns_paramNameLengthB3 octet p here
  · exact name (Or.inl here) _ _
  · exact name (Or.inr (Or.inl here)) _ _
  · exact name (Or.inr (Or.inr here)) _ _
  · exact returns_paramValueLengthB3 octet p
  · exact value (not_inNameLength here (by decide)) _ _ (by decide)
  · exact value (not_inNameLength here (by decide)) _ _ (by decide)
  · exact value (not_inNameLength here (by decide)) _ _ (by decide)
  · exact returns_paramNameData octet p
  · exact returns_paramValueData octet p
  · refine returns_pure (named_of_params rfl ?_)
    simp only [InNameLength, passed, padding, here]
    split <;> simp
  · exact returns_pure (named_of_params rfl (by simp [InNameLength, passed]))

theorem returns_openStdin (p : Parser) : Returns (p.openStdin : Prog P _) fun r => ∀ q, r = some q → q.params = p.params ∧ q.state = p.state := by
  unfold openStdin
  split
  · refine (returns_any _).bind fun met _ => ?_
    split
    · refine returns_pure fun q same => ?_
      cases same
      exact ⟨rfl, rfl⟩
    · exact returns_pure nofun
  · refine returns_pure fun q same => ?_
    cases same
    exact ⟨rfl, rfl⟩

theorem returns_stdinSwitch (octet : UInt8) (p : Parser) : Returns (p.stdinSwitch octet : Prog P _) fun r => Named p (passed r) := by
  unfold stdinSwitch
  split <;> rename_i here
  · refine (returns_openStdin p).bind fun r opened => ?_
    cases r with
    | none => exact returns_pure (named_of_params rfl (by simp [InNameLength, passed]))
    | some q =>
      obtain ⟨params, state⟩ := opened q rfl
      dsimp only
      split
      · refine (returns_any _).bind fun data _ => (returns_any _).bind fun _ _ => (returns_any _).bind fun _ _ => returns_pure ?_
        unfold afterStdin
        split
        · exact named_of_params params (by simp [InNameLength, passed])
        · exact named_of_params params (by simp [InNameLength, passed])
      · refine (returns_any _).bind fun data _ => returns_pure (named_of_params params ?_)
        exact not_inNameLength (state.trans here) (by decide)
  · refine returns_pure (named_of_params rfl ?_)
    simp only [InNameLength, passed, padding, here]
    split <;> simp
  · exact returns_pure (named_of_params rfl (by simp [InNameLength, passed]))

theorem returns_parseParams (p : Parser) (octet : UInt8) : Returns (p.parseParams octet : Prog P _) (Named p) := by
  refine returns_whileLoop (Named p) (fun q before => ?_) _ _ (List.Subset.refl _)
  refine (returns_paramsSwitch octet q).mono fun r named => ?_
  cases r with
  | next q' => exact before.trans named
  | done q' => exact before.trans named

theorem returns_parseStdin (p : Parser) (octet : UInt8) : Returns (p.parseStdin octet : Prog P _) (Named p) := by
  refine returns_whileLoop (Named p) (fun q before => ?_) _ _ (List.Subset.refl _)
  refine (returns_stdinSwitch octet q).mono fun r named => ?_
  cases r with
  | next q' => exact before.trans named
  | done q' => exact before.trans named

theorem named_lookahead (h : Named p q) : Named p (behind q.lookahead) := by
  unfold lookahead
  split
  · exact h
  · exact h

/-- **What an octet does to the name lengths**: none is lost or changed. -/
theorem returns_parseOctet (p : Parser) (octet : UInt8) : Returns (p.parseOctet octet : Prog P _) fun v => Named p (behind v) := by
  have params : Returns (p.parseParams octet >>= fun p => pure p.lookahead : Prog P _) fun v => Named p (behind v) :=
    (returns_parseParams p octet).bind fun q named => returns_pure (named_lookahead named)
  have stdin : Returns (p.parseStdin octet >>= fun p => pure p.lookahead : Prog P _) fun v => Named p (behind v) :=
    (returns_parseStdin p octet).bind fun q named => returns_pure (named_lookahead named)
  unfold parseOctet
  dsimp only
  split
  case h_8 =>
    split
    · exact returns_pure (named_of_params rfl (by simp [InNameLength, behind]))
    · refine returns_pure (named_of_params rfl ?_)
      simp only [InNameLength, behind, dispatchType]
      split_ifs <;> simp
  case h_30 here => exact returns_pure (named_of_params rfl (not_inNameLength here (by decide)))
  case h_31 here => exact returns_pure (named_of_params rfl (not_inNameLength here (by decide)))
  all_goals first
    | exact params
    | exact stdin
    | exact returns_pure (named_of_params rfl (by simp [InNameLength, behind]))
    | rename_i here
      exact returns_pure (named_of_params (by simp only [behind, parseBeginRequest, here])
        (by simp [InNameLength, behind, parseBeginRequest, here]))

theorem returns_parse : ∀ (octets : List UInt8) (p : Parser), Returns (p.parse octets : Prog P _) fun r => Named p r.1
  | [], p => returns_pure (List.Subset.refl _)
  | octet :: octets, p => by
    unfold parse
    rw [consume_cons]
    refine (returns_parseOctet p octet).bind fun v named => ?_
    cases v with
    | advance q => exact (returns_parse octets q).bind fun r named' => returns_pure (named.trans named')
    | finish q => exact returns_pure named
    | stop q => exact returns_pure named

end Parser

end Cpptrw.Fcgi
