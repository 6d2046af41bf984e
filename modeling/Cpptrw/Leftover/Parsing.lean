import Cpptrw.Leftover.Parser

/-!
# What the parser keeps

`ParserOk` holds in front of every octet. Its cases follow the state: while a
parameter is open its fields are known, and the octets that were read of its
name, its value or the data are exactly those in front of `read_counter`. A
parameter is closed at the end of its value, when all of it was written.
-/

namespace Cpptrw.Leftover

open Lib Lib.Prog Arena Fcgi
open Text.Sharing (SlString initWithBuffer)

variable {S : Setting} {Γ Γ' : Typing} {w w' : World} {a : Nat}

/-! ## Open parameters -/

def OnlyOpen (Γ : Typing) (last : Nat) : Prop :=
  ∀ a nameLength valueLength name value, Γ a = some (.opened nameLength valueLength name value) → a = last

def NoneOpen (Γ : Typing) : Prop :=
  ∀ a nameLength valueLength name value, Γ a ≠ some (.opened nameLength valueLength name value)

theorem OnlyOpen.later {last : Nat} (h : OnlyOpen Γ last) (later : Later Γ w Γ' w') : OnlyOpen Γ' last :=
  fun a _ _ _ _ here => h a _ _ _ _ (later.opened a _ _ _ _ here)

theorem NoneOpen.later (h : NoneOpen Γ) (later : Later Γ w Γ' w') : NoneOpen Γ' :=
  fun a _ _ _ _ here => h a _ _ _ _ (later.opened a _ _ _ _ here)

theorem OnlyOpen.set (h : OnlyOpen Γ a) (k : Kind) : OnlyOpen (Γ.set a k) a := by
  intro b _ _ _ _ here
  by_contra other
  rw [Typing.set_other k other] at here
  exact other (h b _ _ _ _ here)

theorem OnlyOpen.closed (h : OnlyOpen Γ a) : NoneOpen (Γ.set a .param) := by
  intro b _ _ _ _ here
  by_cases same : b = a
  · subst same
    rw [Typing.set_self] at here
    cases here
  · rw [Typing.set_other _ same] at here
    exact same (h b _ _ _ _ here)

theorem NoneOpen.set (h : NoneOpen Γ) (k : Kind) : OnlyOpen (Γ.set a k) a := by
  intro b _ _ _ _ here
  by_contra other
  rw [Typing.set_other k other] at here
  exact h b _ _ _ _ here

/-- The two pairs of fields, and how the kind of an open parameter depends on them. -/
inductive IsField : Nat × Nat → (Nat → Nat → Kind) → Prop
  | name (valueLength value : Nat) : IsField Parser.nameFields fun length data => .opened length valueLength data value
  | value (nameLength name : Nat) : IsField Parser.valueFields fun length data => .opened nameLength length name data

variable {fields : Nat × Nat} {kind : Nat → Nat → Kind} {length data : Nat}

theorem IsField.isParam (field : IsField fields kind) (here : Γ a = some (kind length data)) : Γ.IsParam a := by
  cases field with
  | name => exact Or.inr ⟨_, _, _, _, here⟩
  | value => exact Or.inr ⟨_, _, _, _, here⟩

/-- What the two fields of an open parameter are. -/
theorem IsField.reads (field : IsField fields kind) (good : Good S Γ w) (here : Γ a = some (kind length data)) :
    Reads w (load32 S a fields.1) (fun x => x = length) ∧ Reads w (load64 S a fields.2) (fun x => x = data) := by
  have holds := good.holds a _ here
  cases field with
  | name =>
    obtain ⟨filled, -, nameLength, -, name, -⟩ := holds
    exact ⟨(Reads.load32 (filled.part (by decide : 8 + 4 ≤ 32))).mono fun x same => same.trans nameLength,
      (Reads.load64 (filled.part (by decide : 16 + 8 ≤ 32))).mono fun x same => same.trans name⟩
  | value =>
    obtain ⟨filled, -, -, valueLength, -, value⟩ := holds
    exact ⟨(Reads.load32 (filled.part (by decide : 12 + 4 ≤ 32))).mono fun x same => same.trans valueLength,
      (Reads.load64 (filled.part (by decide : 24 + 8 ≤ 32))).mono fun x same => same.trans value⟩

theorem IsField.length_lt (field : IsField fields kind) (good : Good S Γ w) (here : Γ a = some (kind length data)) : length < 2 ^ 32 := by
  have holds := good.holds a _ here
  cases field with
  | name =>
    obtain ⟨-, -, nameLength, -⟩ := holds
    exact nameLength ▸ w.half_lt _
  | value =>
    obtain ⟨-, -, -, valueLength, -⟩ := holds
    exact valueLength ▸ w.half_lt _

/-- A store to an open parameter, by which it is another open parameter. -/
theorem parses_store (good : Good S Γ w) {offset : Nat} {octets : List UInt8} {nl vl n v nl' vl' n' v' : Nat}
    (here : Γ a = some (.opened nl vl n v))
    (holds : ∀ Γ', Γ.Leads Γ' → (Kind.opened nl vl n v).Holds Γ w a → (Kind.opened nl' vl' n' v').Holds Γ' (w.put (a + offset) octets) a)
    (some : octets ≠ []) :
    Parses S Γ w (store S a offset octets) fun _ Γ' _ => Γ' = Γ.set a (.opened nl' vl' n' v') := by
  apply runs_store fun empty => absurd empty some
  intro _ _ bounds
  have leads : Γ.Leads (Γ.set a (.opened nl' vl' n' v')) := .set_param here (Or.inr ⟨_, _, _, _, Typing.set_self ..⟩)
  have placed : (Kind.opened nl' vl' n' v').Placed S w a := good.placed a (.opened nl vl n v) here
  exact ⟨_, good.retype bounds leads placed (holds _ leads (good.holds a _ here)), ⟨leads, fun _ => World.written_put⟩, rfl⟩

theorem IsField.storeLength (field : IsField fields kind) (good : Good S Γ w) (here : Γ a = some (kind length data)) (x : Nat) :
    Parses S Γ w (store32 S a fields.1 x) fun _ Γ' _ => Γ' = Γ.set a (kind (x % 2 ^ 32) data) := by
  have some : toOctets 4 x ≠ [] := fun empty => absurd (congrArg List.length empty) (by simp)
  have other : ∀ offset address, address + 8 ≤ a + offset ∨ a + offset + 4 ≤ address →
      (w.put (a + offset) (toOctets 4 x)).word address = w.word address :=
    fun offset address apart => World.word_put_other (by rwa [length_toOctets])
  have other' : ∀ offset address, address + 4 ≤ a + offset ∨ a + offset + 4 ≤ address →
      (w.put (a + offset) (toOctets 4 x)).half address = w.half address :=
    fun offset address apart => World.half_put_other (by rwa [length_toOctets])
  cases field with
  | name =>
    apply parses_store good here _ some
    rintro Γ' leads ⟨filled, next, -, valueLength, name, value⟩
    refine ⟨filled.put, ?_, World.half_put_self w (a + 8) x, ?_, ?_, ?_⟩
    · exact (other 8 a (by omega)).symm ▸ next.mono (leads.param _)
    · exact (other' 8 (a + 12) (by omega)).trans valueLength
    · exact (other 8 (a + 16) (by omega)).trans name
    · exact (other 8 (a + 24) (by omega)).trans value
  | value =>
    apply parses_store good here _ some
    rintro Γ' leads ⟨filled, next, nameLength, -, name, value⟩
    refine ⟨filled.put, ?_, ?_, World.half_put_self w (a + 12) x, ?_, ?_⟩
    · exact (other 12 a (by omega)).symm ▸ next.mono (leads.param _)
    · exact (other' 12 (a + 8) (by omega)).trans nameLength
    · exact (other 12 (a + 16) (by omega)).trans name
    · exact (other 12 (a + 24) (by omega)).trans value

theorem IsField.storeData (field : IsField fields kind) (good : Good S Γ w) (here : Γ a = some (kind length data)) {x : Nat}
    (small : x < 2 ^ 64) : Parses S Γ w (store64 S a fields.2 x) fun _ Γ' _ => Γ' = Γ.set a (kind length x) := by
  have some : toOctets 8 x ≠ [] := fun empty => absurd (congrArg List.length empty) (by simp)
  have other : ∀ offset address, address + 8 ≤ a + offset ∨ a + offset + 8 ≤ address →
      (w.put (a + offset) (toOctets 8 x)).word address = w.word address :=
    fun offset address apart => World.word_put_other (by rwa [length_toOctets])
  have other' : ∀ offset address, address + 4 ≤ a + offset ∨ a + offset + 8 ≤ address →
      (w.put (a + offset) (toOctets 8 x)).half address = w.half address :=
    fun offset address apart => World.half_put_other (by rwa [length_toOctets])
  have self : ∀ offset, (w.put (a + offset) (toOctets 8 x)).word (a + offset) = x :=
    fun offset => (World.word_put_self w (a + offset) x).trans (Nat.mod_eq_of_lt small)
  cases field with
  | name =>
    apply parses_store good here _ some
    rintro Γ' leads ⟨filled, next, nameLength, valueLength, -, value⟩
    refine ⟨filled.put, ?_, ?_, ?_, self 16, ?_⟩
    · exact (other 16 a (by omega)).symm ▸ next.mono (leads.param _)
    · exact (other' 16 (a + 8) (by omega)).trans nameLength
    · exact (other' 16 (a + 12) (by omega)).trans valueLength
    · exact (other 16 (a + 24) (by omega)).trans value
  | value =>
    apply parses_store good here _ some
    rintro Γ' leads ⟨filled, next, nameLength, valueLength, name, -⟩
    refine ⟨filled.put, ?_, ?_, ?_, ?_, self 24⟩
    · exact (other 24 a (by omega)).symm ▸ next.mono (leads.param _)
    · exact (other' 24 (a + 8) (by omega)).trans nameLength
    · exact (other' 24 (a + 12) (by omega)).trans valueLength
    · exact (other 24 (a + 16) (by omega)).trans name

/-! ## The invariant -/

/-- How far the last parameter is. -/
inductive Phase
  | lengths
  | name
  | value
  | closed
  | failed

def phase : ParserState → Phase
  | .paramNameLengthB2 | .paramNameLengthB1 | .paramNameLengthB0
  | .paramValueLengthB3 | .paramValueLengthB2 | .paramValueLengthB1 | .paramValueLengthB0 => .lengths
  | .paramNameData => .name
  | .paramValueData => .value
  | .error => .failed
  | _ => .closed

/-- How far the data is. -/
inductive Stage
  | before
  | reading
  | complete
  | failed

def stage : ParserState → Stage
  | .stdinData => .reading
  | .stdinPadding | .finished => .complete
  | .error => .failed
  | _ => .before

/-- The octets in front of `read_counter` were read, if there is a region for them. -/
def Filling (Γ : Typing) (w : World) (length readCounter data : Nat) : Prop :=
  data = 0 ∨ Γ.IsChars data ∧ readCounter ≤ length ∧ Filled w data (length - readCounter)

/-- One parameter is open, and has no name yet. -/
def LengthsOpen (Γ : Typing) (last : Nat) : Prop :=
  OnlyOpen Γ last ∧ ∃ nameLength valueLength, Γ last = some (.opened nameLength valueLength 0 0)

def ParamOk (Γ : Typing) (w : World) (last readCounter : Nat) : Phase → Prop
  | .lengths => LengthsOpen Γ last
  | .name => OnlyOpen Γ last ∧ ∃ nameLength valueLength name, Γ last = some (.opened nameLength valueLength name 0) ∧
      Filling Γ w nameLength readCounter name
  | .value => OnlyOpen Γ last ∧ ∃ nameLength valueLength name value, Γ last = some (.opened nameLength valueLength name value) ∧
      Filled w name nameLength ∧ Filling Γ w valueLength readCounter value
  | .closed => NoneOpen Γ
  | .failed => True

def StdinOk (Γ : Typing) (w : World) (length readCounter data : Nat) : Stage → Prop
  | .before => data = 0 ∧ length = 0
  | .reading => Filling Γ w length readCounter data
  | .complete => Filled w data length
  | .failed => True

/-- **The invariant** of the parser. -/
structure ParserOk (p : Parser) (Γ : Typing) (w : World) : Prop where
  first : OrNull Γ.IsParam p.firstParam
  last : OrNull Γ.IsParam p.lastParam
  param : ParamOk Γ w p.lastParam p.readCounter (phase p.state)
  stdin : StdinOk Γ w p.stdinLength p.readCounter p.stdinData (stage p.state)
  content : p.messageHeader.contentLength < 2 ^ 16 ∧ p.stdinLength < 2 ^ 16

theorem Filling.later {readCounter : Nat} (h : Filling Γ w length readCounter data) (later : Later Γ w Γ' w') :
    Filling Γ' w' length readCounter data :=
  h.imp id fun ⟨chars, less, filled⟩ => ⟨later.leads.chars chars, less, later.filled filled⟩

theorem ParserOk.inPhase {p : Parser} (h : ParserOk p Γ w) {x : Phase} (here : phase p.state = x) :
    ParamOk Γ w p.lastParam p.readCounter x := here ▸ h.param

theorem ParserOk.inStage {p : Parser} (h : ParserOk p Γ w) {x : Stage} (here : stage p.state = x) :
    StdinOk Γ w p.stdinLength p.readCounter p.stdinData x := here ▸ h.stdin

/-- Other code leaves the parser alone. -/
theorem ParserOk.later {p : Parser} (h : ParserOk p Γ w) (later : Later Γ w Γ' w') : ParserOk p Γ' w' := by
  refine ⟨h.first.mono (later.leads.param _), h.last.mono (later.leads.param _), ?_, ?_, h.content⟩
  · have param := h.param
    revert param
    cases phase p.state with
    | lengths =>
      rintro ⟨only, nl, vl, here⟩
      exact ⟨only.later later, nl, vl, later.kept _ _ here⟩
    | name =>
      rintro ⟨only, nl, vl, name, here, filling⟩
      exact ⟨only.later later, nl, vl, name, later.kept _ _ here, filling.later later⟩
    | value =>
      rintro ⟨only, nl, vl, name, value, here, filled, filling⟩
      exact ⟨only.later later, nl, vl, name, value, later.kept _ _ here, later.filled filled, filling.later later⟩
    | closed => exact fun none => NoneOpen.later none later
    | failed => exact id
  · have stdin := h.stdin
    revert stdin
    cases stage p.state with
    | before => exact id
    | reading => exact fun filling => Filling.later filling later
    | complete => exact later.filled
    | failed => exact id

/-- In error nothing is asked of the parameter or the data. -/
theorem ParserOk.error {p : Parser} (first : OrNull Γ.IsParam p.firstParam) (last : OrNull Γ.IsParam p.lastParam)
    (failed : p.state = .error) (content : p.messageHeader.contentLength < 2 ^ 16 ∧ p.stdinLength < 2 ^ 16) : ParserOk p Γ w := by
  refine ⟨first, last, ?_, ?_, content⟩ <;> rw [failed] <;> trivial

namespace Parses

/-- The next octet of a name, of a value or of the data. -/
theorem next (good : Good S Γ w) {readCounter : Nat} (chars : Γ.IsChars data) (less : readCounter ≤ length) (small : length < 2 ^ 64)
    (filled : Filled w data (length - readCounter)) (octet : UInt8) :
    Keeps S Γ w (store S data (sub64 length readCounter) [octet]) fun _ Γ' w' => Γ' = Γ ∧ Filled w' data (length - readCounter + 1) := by
  rw [sub64_of_le small less]
  apply (Keeps.fill good fun _ => chars).mono
  rintro _ _ w' later ⟨same, one⟩
  exact ⟨same, (later.filled filled).append one⟩

/-- A length of the open parameter is stored. -/
theorem setLength (good : Good S Γ w) (opened : LengthsOpen Γ a) (which : fields = Parser.nameFields ∨ fields = Parser.valueFields)
    (x : Nat) : Parses S Γ w (store32 S a fields.1 x) fun _ Γ' _ => LengthsOpen Γ' a := by
  obtain ⟨only, nl, vl, here⟩ := opened
  rcases which with rfl | rfl
  · apply ((IsField.name vl 0).storeLength good here x).mono
    rintro _ _ w' _ rfl
    exact ⟨only.set _, _, _, Typing.set_self ..⟩
  · apply ((IsField.value nl 0).storeLength good here x).mono
    rintro _ _ w' _ rfl
    exact ⟨only.set _, _, _, Typing.set_self ..⟩

theorem storeLength (good : Good S Γ w) (opened : LengthsOpen Γ a) (which : fields = Parser.nameFields ∨ fields = Parser.valueFields)
    (octet : UInt8) : Parses S Γ w (Parser.storeLength S a fields octet) fun _ Γ' _ => LengthsOpen Γ' a := by
  unfold Parser.storeLength
  split
  · apply (setLength good opened which _).bind
    intro _ Γ₁ w₁ good₁ _ opened₁
    exact .pure good₁ opened₁
  · apply (setLength good opened which _).bind
    intro _ Γ₁ w₁ good₁ _ opened₁
    exact .pure good₁ opened₁

theorem readLength (good : Good S Γ w) (opened : LengthsOpen Γ a) (which : fields = Parser.nameFields ∨ fields = Parser.valueFields) :
    Reads w (load32 S a fields.1) fun _ => True := by
  obtain ⟨only, nl, vl, here⟩ := opened
  rcases which with rfl | rfl
  · exact ((IsField.name vl 0).reads good here).1.mono fun _ _ => trivial
  · exact ((IsField.value nl 0).reads good here).1.mono fun _ _ => trivial

/-- A parser that is at the lengths of a parameter, or right behind them. -/
theorem ok_lengths {p : Parser} (first : OrNull Γ.IsParam p.firstParam) (opened : LengthsOpen Γ p.lastParam)
    (here : phase p.state = .lengths ∨ phase p.state = .name) (before : stage p.state = .before) (empty : p.stdinData = 0 ∧ p.stdinLength = 0)
    (content : p.messageHeader.contentLength < 2 ^ 16 ∧ p.stdinLength < 2 ^ 16) : ParserOk p Γ w := by
  obtain ⟨only, nl, vl, there⟩ := opened
  refine ⟨first, Or.inr (Or.inr ⟨_, _, _, _, there⟩), ?_, before ▸ empty, content⟩
  rcases here with here | here
  · rw [here]
    exact ⟨only, nl, vl, there⟩
  · rw [here]
    exact ⟨only, nl, vl, 0, there, Or.inl rfl⟩

theorem paramLength (good : Good S Γ w) {p : Parser} (ok : ParserOk p Γ w) (here : phase p.state = .lengths) (before : stage p.state = .before)
    (which : fields = Parser.nameFields ∨ fields = Parser.valueFields) {next : ParserState} (there : phase next = .lengths ∨ phase next = .name)
    (before' : stage next = .before) (octet : UInt8) (shift : Nat) :
    Parses S Γ w (Parser.paramLength S fields octet shift next p) (Pass ParserOk ParserOk) := by
  have opened : LengthsOpen Γ p.lastParam := ok.inPhase here
  have empty : p.stdinData = 0 ∧ p.stdinLength = 0 := ok.inStage before
  unfold Parser.paramLength
  apply Leaves.read (readLength good opened which)
  intro length _
  apply (setLength good opened which _).bind
  intro _ Γ₁ w₁ good₁ onward₁ opened₁
  exact .pure good₁ (ok_lengths (ok.first.mono (onward₁.leads.param _)) opened₁ there before' empty ok.content)

theorem paramValueLengthB3 (good : Good S Γ w) {p : Parser} (ok : ParserOk p Γ w) (here : p.state = .paramValueLengthB3) (octet : UInt8) :
    Parses S Γ w (p.paramValueLengthB3 S octet) (Pass ParserOk ParserOk) := by
  have opened : LengthsOpen Γ p.lastParam := ok.inPhase (congrArg phase here)
  have empty : p.stdinData = 0 ∧ p.stdinLength = 0 := ok.inStage (congrArg stage here)
  unfold Parser.paramValueLengthB3
  apply (storeLength good opened (Or.inr rfl) octet).bind
  rintro ⟨size, long⟩ Γ₁ w₁ good₁ onward₁ opened₁
  refine .pure good₁ (ok_lengths (ok.first.mono (onward₁.leads.param _)) opened₁ ?_ ?_ empty ok.content)
  · cases long
    · exact Or.inr rfl
    · exact Or.inl rfl
  · cases long <;> rfl

/-- The previous parameter is linked to a new one. -/
theorem link (good : Good S Γ w) {last param : Nat} (small : param < 2 ^ 64) (done : last ≠ 0 → Γ last = some .param)
    (isParam : Γ.IsParam param) : Keeps S Γ w (Machine.when (last ≠ 0) (store64 S last 0 param)) fun _ Γ' _ => Γ' = Γ := by
  unfold Machine.when
  split
  · rename_i some
    have here := done some
    obtain ⟨filled, next, name, value⟩ := good.holds last _ here
    have other : ∀ address, last + 8 ≤ address → (w.put (last + 0) (toOctets 8 param)).word address = w.word address :=
      fun address above => World.word_put_other (by rw [length_toOctets]; omega)
    have other' : ∀ address, last + 8 ≤ address → (w.put (last + 0) (toOctets 8 param)).half address = w.half address :=
      fun address above => World.half_put_other (by rw [length_toOctets]; omega)
    have self : (w.put (last + 0) (toOctets 8 param)).word last = param :=
      (World.word_put_self w last param).trans (Nat.mod_eq_of_lt small)
    apply Keeps.setField good here
    refine ⟨filled.put, Or.inr ?_, ?_, ?_⟩
    · rwa [self]
    · rw [other _ (by omega), other' _ (Nat.le_refl _)]
      exact name.put
    · rw [other _ (by omega), other' _ (by omega)]
      exact value.put
  · exact .pure good rfl

/-- A new parameter. -/
theorem newParam (good : Good S Γ w) {param : Nat} (raw : Raw S Γ w param 32) :
    Parses S Γ w (storeWords S param [0, 0, 0, 0]) fun _ Γ' _ => Γ' = Γ.set param (.opened 0 0 0 0) := by
  have long : (words [0, 0, 0, 0]).length = 32 := by decide
  have leads := Typing.Leads.set raw.untyped (.opened 0 0 0 0)
  have fields := fun i => @World.word_put_words w param [0, 0, 0, 0] i
  have next := fields 0 (by decide : 0 < 4)
  have name := fields 2 (by decide : 2 < 4)
  have value := fields 3 (by decide : 3 < 4)
  simp only [List.getElem_cons_zero, List.getElem_cons_succ, Nat.mul_zero, Nat.add_zero, Nat.zero_mod] at next name value
  have holds : (Kind.opened 0 0 0 0).Holds (Γ.set param (.opened 0 0 0 0)) (w.put param (words [0, 0, 0, 0])) param :=
    ⟨long ▸ filled_put w param _, Or.inl next, World.half_put_zero w param (by decide), World.half_put_zero w param (by decide), name, value⟩
  apply Keeps.build good raw (k := .opened 0 0 0 0) (by decide) (Nat.le_of_eq long.symm) holds
  intro good'
  exact ⟨_, good', ⟨leads, fun _ => World.written_put⟩, rfl⟩

theorem paramNameLengthB3 (sound : S.Sound) (good : Good S Γ w) {p : Parser} (ok : ParserOk p Γ w) (here : p.state = .paramNameLengthB3)
    (octet : UInt8) : Parses S Γ w (p.paramNameLengthB3 S octet) (Pass ParserOk ParserOk) := by
  have empty : p.stdinData = 0 ∧ p.stdinLength = 0 := ok.inStage (congrArg stage here)
  unfold Parser.paramNameLengthB3
  apply (Keeps.allocate sound good (Or.inl (by decide))).parses
  rintro param Γ₁ w₁ good₁ later₁ ⟨rfl, null | ⟨raw, -⟩⟩
  · rw [if_pos null]
    exact .pure good₁ (.error ok.first ok.last rfl ok.content)
  rw [if_neg raw.valid]
  have none : NoneOpen Γ₁ := ok.inPhase (congrArg phase here)
  apply (newParam good₁ raw).bind
  rintro _ Γ₂ w₂ good₂ onward₂ same
  have isParam : Γ₂.IsParam param := Or.inr ⟨0, 0, 0, 0, by rw [same, Typing.set_self]⟩
  have done : p.lastParam ≠ 0 → Γ₂ p.lastParam = some .param := by
    intro some
    rcases ok.last.resolve_left some with there | ⟨_, _, _, _, there⟩
    · exact onward₂.leads.kept _ _ there (by simp)
    · exact absurd there (none _ _ _ _ _)
  apply (link good₂ raw.small done isParam).parses
  rintro _ Γ₃ w₃ good₃ later₃ rfl
  have opened : LengthsOpen Γ₃ param := by
    rw [same]
    exact ⟨none.set _, 0, 0, Typing.set_self ..⟩
  apply (storeLength good₃ opened (Or.inl rfl) octet).bind
  rintro ⟨size, long⟩ Γ₄ w₄ good₄ onward₄ opened₄
  refine .pure good₄ (ok_lengths ?_ opened₄ ?_ ?_ empty ok.content)
  · dsimp only
    split
    · exact Or.inr (onward₄.leads.param _ isParam)
    · exact ok.first.mono fun there => onward₄.leads.param _ (onward₂.leads.param _ there)
  · cases long
    · exact Or.inl rfl
    · exact Or.inl rfl
  · cases long <;> rfl

/-- The last parameter with a region for its name or its value. -/
structure Opened (p : Parser) (kind : Nat → Nat → Kind) (length : Nat) (p' : Parser) (Γ : Typing) (w : World) (data : Nat) : Prop where
  same : ∃ counter size, p' = { p with readCounter := counter, messageSize := size }
  only : OnlyOpen Γ p.lastParam
  here : Γ p.lastParam = some (kind length data)
  chars : Γ.IsChars data
  less : p'.readCounter ≤ length
  filled : Filled w data (length - p'.readCounter)

theorem openData (sound : S.Sound) (good : Good S Γ w) (field : IsField fields kind) {p : Parser} (only : OnlyOpen Γ p.lastParam)
    (here : Γ p.lastParam = some (kind length data)) (filling : Filling Γ w length p.readCounter data) :
    Parses S Γ w (p.openData S fields) fun r Γ' w' => ∀ p', r = some p' → ∃ data, Opened p kind length p' Γ' w' data := by
  unfold Parser.openData
  apply Leaves.read (field.reads good here).2
  rintro _ rfl
  split
  · rename_i null
    subst null
    apply Leaves.read (field.reads good here).1
    rintro _ rfl
    have short := field.length_lt good here
    apply (Keeps.allocateChars sound good (Or.inl (by omega)) (Nat.succ_pos _)).parses
    rintro buffer Γ₁ w₁ good₁ later₁ (null | ⟨valid, small, chars⟩)
    · subst null
      apply (field.storeData good₁ (later₁.kept _ _ here) (by decide)).bind
      rintro _ Γ₂ w₂ good₂ onward₂ rfl
      rw [if_pos rfl]
      exact .pure good₂ nofun
    · apply (field.storeData good₁ (later₁.kept _ _ here) small).bind
      rintro _ Γ₂ w₂ good₂ onward₂ rfl
      rw [if_neg valid]
      refine .pure good₂ fun p' same => ?_
      cases same
      refine ⟨buffer, ⟨_, _, rfl⟩, (only.later later₁).set _, Typing.set_self .., onward₂.leads.chars chars, Nat.le_refl _, ?_⟩
      intro address low high
      dsimp only at high
      omega
  · rename_i valid
    refine .pure good fun p' same => ?_
    cases same
    obtain ⟨chars, less, filled⟩ := filling.resolve_left valid
    exact ⟨_, ⟨_, _, rfl⟩, only, here, chars, less, filled⟩

theorem paramNameData (sound : S.Sound) (good : Good S Γ w) {p : Parser} (ok : ParserOk p Γ w) (here : p.state = .paramNameData)
    (octet : UInt8) : Parses S Γ w (p.paramNameData S octet) (Pass ParserOk ParserOk) := by
  obtain ⟨only, nl, vl, name, there, filling⟩ := ok.inPhase (congrArg phase here)
  have empty : p.stdinData = 0 ∧ p.stdinLength = 0 := ok.inStage (congrArg stage here)
  have field := IsField.name vl 0
  unfold Parser.paramNameData
  apply (openData sound good field only there filling).bind
  intro r Γ₁ w₁ good₁ onward₁ opened
  have first := ok.first.mono (onward₁.leads.param _)
  cases r with
  | none => exact .pure good₁ (.error first (ok.last.mono (onward₁.leads.param _)) rfl ok.content)
  | some p' =>
    obtain ⟨name, ⟨counter, size, rfl⟩, only₁, there₁, chars, less, filled⟩ := opened p' rfl
    have last : OrNull Γ₁.IsParam p.lastParam := Or.inr (field.isParam there₁)
    have short := field.length_lt good₁ there₁
    dsimp only at less filled ⊢
    apply Leaves.read (field.reads good₁ there₁).1
    rintro nameLength rfl
    apply Leaves.read (field.reads good₁ there₁).2
    rintro name rfl
    split
    · rename_i through
      subst through
      apply (Keeps.fill good₁ fun _ => chars).parses
      rintro _ Γ₂ w₂ good₂ later₂ ⟨rfl, -⟩
      exact .pure good₂ ⟨first, last, ⟨only₁, nameLength, vl, name, 0, there₁, later₂.filled filled, Or.inl rfl⟩, empty, ok.content⟩
    · rename_i more
      apply (next good₁ chars less (by omega) filled octet).parses
      rintro _ Γ₂ w₂ good₂ later₂ ⟨rfl, filled₂⟩
      rw [show nameLength - counter + 1 = nameLength - (counter - 1) by omega] at filled₂
      have filling₂ : Filling Γ₂ w₂ nameLength (counter - 1) name := Or.inr ⟨chars, by omega, filled₂⟩
      refine .pure good₂ ⟨first, last, ?_, ?_, ok.content⟩
      · dsimp only
        rw [here]
        exact ⟨only₁, nameLength, vl, name, there₁, filling₂⟩
      · dsimp only
        rw [here]
        exact empty

/-- The last parameter is closed. -/
theorem close (good : Good S Γ w) {nameLength valueLength name value : Nat} (here : Γ a = some (.opened nameLength valueLength name value))
    (filled : Filled w name nameLength) (filled' : Filled w value valueLength) :
    Good S (Γ.set a .param) w ∧ Onward Γ w (Γ.set a .param) w := by
  have leads : Γ.Leads (Γ.set a .param) := .set_param here (Or.inl (Typing.set_self ..))
  obtain ⟨all, next, sameLength, sameLength', sameName, sameValue⟩ := good.holds a _ here
  have placed : Kind.param.Placed S w a := good.placed a (.opened nameLength valueLength name value) here
  refine ⟨good.declare leads placed ⟨all, next.mono (leads.param _), ?_, ?_⟩, leads, fun _ => id⟩
  · rwa [sameLength, sameName]
  · rwa [sameLength', sameValue]

/-- Behind a pair. -/
theorem afterPair {p : Parser} (first : OrNull Γ.IsParam p.firstParam) (last : OrNull Γ.IsParam p.lastParam) (none : NoneOpen Γ)
    (empty : p.stdinData = 0 ∧ p.stdinLength = 0) (content : p.messageHeader.contentLength < 2 ^ 16 ∧ p.stdinLength < 2 ^ 16) :
    Pass ParserOk ParserOk p.afterPair Γ w := by
  unfold Parser.afterPair
  split
  · split
    · refine ⟨first, last, none, fun address low high => ?_, content⟩
      dsimp only at low high
      omega
    · exact ⟨first, last, none, empty, content⟩
  · exact ⟨first, last, none, empty, content⟩

theorem paramValueData (sound : S.Sound) (good : Good S Γ w) {p : Parser} (ok : ParserOk p Γ w) (here : p.state = .paramValueData)
    (octet : UInt8) : Parses S Γ w (p.paramValueData S octet) (Pass ParserOk ParserOk) := by
  obtain ⟨only, nl, vl, name, value, there, named, filling⟩ := ok.inPhase (congrArg phase here)
  have empty : p.stdinData = 0 ∧ p.stdinLength = 0 := ok.inStage (congrArg stage here)
  have field := IsField.value nl name
  unfold Parser.paramValueData
  apply (openData sound good field only there filling).bind
  intro r Γ₁ w₁ good₁ onward₁ opened
  have first := ok.first.mono (onward₁.leads.param _)
  have named₁ := named.mono onward₁.written
  cases r with
  | none => exact .pure good₁ (.error first (ok.last.mono (onward₁.leads.param _)) rfl ok.content)
  | some p' =>
    obtain ⟨value, ⟨counter, size, rfl⟩, only₁, there₁, chars, less, filled⟩ := opened p' rfl
    have last : OrNull Γ₁.IsParam p.lastParam := Or.inr (field.isParam there₁)
    have short := field.length_lt good₁ there₁
    dsimp only at less filled ⊢
    apply Leaves.read (field.reads good₁ there₁).1
    rintro valueLength rfl
    apply Leaves.read (field.reads good₁ there₁).2
    rintro value rfl
    split
    · rename_i through
      subst through
      apply (Keeps.fill good₁ fun _ => chars).parses
      rintro _ Γ₂ w₂ good₂ later₂ ⟨rfl, -⟩
      have field' := IsField.name valueLength value
      apply Leaves.read (field'.reads good₂ there₁).1
      rintro nameLength rfl
      apply Leaves.read (field'.reads good₂ there₁).2
      rintro name rfl
      have readable : Readable Γ₂ w₂ [.string (initWithBuffer name nameLength), .string (initWithBuffer value valueLength)] := by
        intro argument there
        simp only [List.mem_cons, List.not_mem_nil, or_false] at there
        rcases there with rfl | rfl
        · exact later₂.filled named₁
        · exact later₂.filled filled
      apply (Keeps.logWriteFormat sound good₂ (by decide) readable).parses
      rintro _ Γ₃ w₃ good₃ later₃ -
      have wrote := later₂.trans later₃
      obtain ⟨good₄, onward₄⟩ := close good₃ (later₃.kept _ _ there₁) (wrote.filled named₁) (wrote.filled filled)
      have leads := later₃.leads.trans onward₄.leads
      exact .ghost onward₄ (.pure good₄ (afterPair (first.mono (leads.param _)) (last.mono (leads.param _)) (only₁.later later₃).closed
        empty ok.content))
    · rename_i more
      apply (next good₁ chars less (by omega) filled octet).parses
      rintro _ Γ₂ w₂ good₂ later₂ ⟨rfl, filled₂⟩
      rw [show valueLength - counter + 1 = valueLength - (counter - 1) by omega] at filled₂
      have filling₂ : Filling Γ₂ w₂ valueLength (counter - 1) value := Or.inr ⟨chars, by omega, filled₂⟩
      refine .pure good₂ ⟨first, last, ?_, ?_, ok.content⟩
      · dsimp only
        rw [here]
        exact ⟨only₁, nl, valueLength, name, value, there₁, later₂.filled named₁, filling₂⟩
      · dsimp only
        rw [here]
        exact empty

/-! Stdin -/

/-- The data, with a region for it. -/
structure OpenedStdin (p p' : Parser) (Γ : Typing) (w : World) : Prop where
  same : ∃ length data counter size, p' = { p with stdinLength := length, stdinData := data, readCounter := counter, messageSize := size }
  short : p'.stdinLength < 2 ^ 16
  chars : Γ.IsChars p'.stdinData
  less : p'.readCounter ≤ p'.stdinLength
  filled : Filled w p'.stdinData (p'.stdinLength - p'.readCounter)

theorem openStdin (sound : S.Sound) (good : Good S Γ w) {p : Parser} (content : p.messageHeader.contentLength < 2 ^ 16 ∧ p.stdinLength < 2 ^ 16)
    (filling : Filling Γ w p.stdinLength p.readCounter p.stdinData) :
    Keeps S Γ w (p.openStdin S) fun r Γ' w' => ∀ p', r = some p' → OpenedStdin p p' Γ' w' := by
  unfold Parser.openStdin
  split
  · have short := content.1
    apply (Keeps.allocateChars sound good (Or.inl (by omega)) (Nat.succ_pos _)).bind
    rintro data Γ₁ w₁ good₁ later₁ (null | ⟨valid, -, chars⟩)
    · rw [if_pos null]
      exact .pure good₁ nofun
    · rw [if_neg valid]
      refine .pure good₁ fun p' same => ?_
      cases same
      refine ⟨⟨_, _, _, _, rfl⟩, short, chars, Nat.le_refl _, fun address low high => ?_⟩
      dsimp only at low high
      omega
  · rename_i valid
    refine .pure good fun p' same => ?_
    cases same
    obtain ⟨chars, less, filled⟩ := filling.resolve_left valid
    exact ⟨⟨_, _, _, _, rfl⟩, content.2, chars, less, filled⟩

theorem stdinOctet (sound : S.Sound) (good : Good S Γ w) {p : Parser} (ok : ParserOk p Γ w) (here : p.state = .stdinData)
    (octet : UInt8) : Parses S Γ w (p.stdinOctet S octet) (Pass ParserOk ParserOk) := by
  have none : NoneOpen Γ := ok.inPhase (congrArg phase here)
  have filling : Filling Γ w p.stdinLength p.readCounter p.stdinData := ok.inStage (congrArg stage here)
  unfold Parser.stdinOctet
  apply (openStdin sound good ok.content filling).parses
  intro r Γ₁ w₁ good₁ later₁ opened
  have ok₁ := ok.later later₁
  have none₁ := none.later later₁
  cases r with
  | none => exact .pure good₁ (.error ok₁.first ok₁.last rfl ⟨ok.content.1, ok.content.1⟩)
  | some p' =>
    obtain ⟨⟨length, data, counter, size, rfl⟩, short, chars, less, filled⟩ := opened p' rfl
    dsimp only at short chars less filled ⊢
    split
    · rename_i through
      subst through
      apply (Keeps.fill good₁ fun _ => chars).parses
      rintro _ Γ₂ w₂ good₂ later₂ ⟨rfl, -⟩
      have readable : Readable Γ₂ w₂ [.string (initWithBuffer data length)] := by
        intro argument there
        cases List.mem_singleton.mp there
        exact later₂.filled filled
      apply (Keeps.logWriteFormat sound good₂ (by decide) readable).parses
      rintro _ Γ₃ w₃ good₃ later₃ -
      have ok₃ := (ok₁.later later₂).later later₃
      have complete := (later₂.trans later₃).filled filled
      refine .pure good₃ ?_
      unfold Parser.afterStdin
      split
      · exact ⟨ok₃.first, ok₃.last, none₁.later later₃, complete, ok.content.1, short⟩
      · exact ⟨ok₃.first, ok₃.last, none₁.later later₃, complete, ok.content.1, short⟩
    · rename_i more
      apply (next good₁ chars less (by omega) filled octet).parses
      rintro _ Γ₂ w₂ good₂ later₂ ⟨rfl, filled₂⟩
      rw [show length - counter + 1 = length - (counter - 1) by omega] at filled₂
      have filling₂ : Filling Γ₂ w₂ length (counter - 1) data := Or.inr ⟨chars, by omega, filled₂⟩
      refine .pure good₂ ⟨ok₁.first, ok₁.last, ?_, ?_, ok.content.1, short⟩
      · dsimp only
        rw [here]
        exact none₁
      · dsimp only
        rw [here]
        exact filling₂

/-! The switches -/

theorem padding {p : Parser} (ok : ParserOk p Γ w) (here : p.state = .paramPadding ∨ p.state = .stdinPadding) :
    ParserOk p.padding Γ w := by
  have none : NoneOpen Γ := by
    rcases here with here | here
    · exact ok.inPhase (congrArg phase here)
    · exact ok.inPhase (congrArg phase here)
  have complete : Filled w p.stdinData p.stdinLength := by
    rcases here with here | here
    · obtain ⟨-, empty⟩ := ok.inStage (congrArg stage here)
      intro address low high
      omega
    · exact ok.inStage (congrArg stage here)
  by_cases last : p.readCounter = 0
  · refine ⟨ok.first, ok.last, ?_, ?_, ok.content⟩
    · simp only [Parser.padding, last, if_true]
      exact none
    · simp only [Parser.padding, last, if_true]
      exact complete
  · refine ⟨ok.first, ok.last, ?_, ?_, ok.content⟩
    · simp only [Parser.padding, last, if_false]
      rcases here with here | here <;> rw [here] <;> exact none
    · simp only [Parser.padding, last, if_false]
      rcases here with here | here
      · have empty : p.stdinData = 0 ∧ p.stdinLength = 0 := ok.inStage (congrArg stage here)
        rw [here]
        exact empty
      · rw [here]
        exact complete

theorem paramsSwitch (sound : S.Sound) (octet : UInt8) (p : Parser) (Γ : Typing) (w : World) (good : Good S Γ w) (ok : ParserOk p Γ w) :
    Parses S Γ w (p.paramsSwitch S octet) (Pass ParserOk ParserOk) := by
  unfold Parser.paramsSwitch
  split
  · exact paramNameLengthB3 sound good ok ‹_› octet
  · exact paramLength good ok (congrArg phase ‹_›) (congrArg stage ‹_›) (Or.inl rfl) (Or.inl rfl) rfl octet 16
  · exact paramLength good ok (congrArg phase ‹_›) (congrArg stage ‹_›) (Or.inl rfl) (Or.inl rfl) rfl octet 8
  · exact paramLength good ok (congrArg phase ‹_›) (congrArg stage ‹_›) (Or.inl rfl) (Or.inl rfl) rfl octet 0
  · exact paramValueLengthB3 good ok ‹_› octet
  · exact paramLength good ok (congrArg phase ‹_›) (congrArg stage ‹_›) (Or.inr rfl) (Or.inl rfl) rfl octet 16
  · exact paramLength good ok (congrArg phase ‹_›) (congrArg stage ‹_›) (Or.inr rfl) (Or.inl rfl) rfl octet 8
  · exact paramLength good ok (congrArg phase ‹_›) (congrArg stage ‹_›) (Or.inr rfl) (Or.inr rfl) rfl octet 0
  · exact paramNameData sound good ok ‹_› octet
  · exact paramValueData sound good ok ‹_› octet
  · exact .pure good (padding ok (Or.inl ‹_›))
  · exact .pure good (.error ok.first ok.last rfl ok.content)

theorem stdinSwitch (sound : S.Sound) (octet : UInt8) (p : Parser) (Γ : Typing) (w : World) (good : Good S Γ w) (ok : ParserOk p Γ w) :
    Parses S Γ w (p.stdinSwitch S octet) (Pass ParserOk ParserOk) := by
  unfold Parser.stdinSwitch
  split
  · exact stdinOctet sound good ok ‹_› octet
  · exact .pure good (padding ok (Or.inr ‹_›))
  · exact .pure good (.error ok.first ok.last rfl ok.content)

/-- The parser behind an octet. -/
def VerdictOk : Verdict Parser → Typing → World → Prop
  | .advance p => ParserOk p
  | .finish p => ParserOk p
  | .stop p => ParserOk p

theorem lookahead {p : Parser} (ok : ParserOk p Γ w) : VerdictOk p.lookahead Γ w := by
  unfold Parser.lookahead
  split
  · exact ok
  · exact ok

theorem parseBeginRequest {p : Parser} (ok : ParserOk p Γ w) (closed : phase p.state = .closed) (before : stage p.state = .before)
    (octet : UInt8) : ParserOk (p.parseBeginRequest octet) Γ w := by
  have none : NoneOpen Γ := ok.inPhase closed
  have empty : p.stdinData = 0 ∧ p.stdinLength = 0 := ok.inStage before
  have complete : Filled w p.stdinData p.stdinLength := by
    intro address low high
    omega
  unfold Parser.parseBeginRequest
  split
  · exact ⟨ok.first, ok.last, none, empty, ok.content⟩
  · exact ⟨ok.first, ok.last, none, empty, ok.content⟩
  · exact ⟨ok.first, ok.last, none, empty, ok.content⟩
  · exact ⟨ok.first, ok.last, none, empty, ok.content⟩
  · exact ⟨ok.first, ok.last, none, empty, ok.content⟩
  · exact ⟨ok.first, ok.last, none, empty, ok.content⟩
  · exact ⟨ok.first, ok.last, none, empty, ok.content⟩
  · exact ⟨ok.first, ok.last, none, complete, ok.content⟩
  · exact .error ok.first ok.last rfl ok.content

/-- An octet of the header. -/
theorem header {p : Parser} (ok : ParserOk p Γ w) (closed : phase p.state = .closed) (before : stage p.state = .before) {next : ParserState}
    (closed' : phase next = .closed) (before' : stage next = .before) {header : MsgHeader} (short : header.contentLength < 2 ^ 16) :
    ParserOk { p with messageHeader := header, state := next } Γ w := by
  refine ⟨ok.first, ok.last, ?_, ?_, short, ok.content.2⟩
  · dsimp only
    rw [closed']
    exact ok.inPhase closed
  · dsimp only
    rw [before']
    exact ok.inStage before

/-- In front of the body of a record there is no parameter and no data. -/
theorem dispatch {p : Parser} (ok : ParserOk p Γ w) (none : NoneOpen Γ) (empty : p.stdinData = 0 ∧ p.stdinLength = 0) (type : UInt8) :
    ParserOk { p with state := dispatchType type } Γ w := by
  unfold dispatchType
  split
  · exact ⟨ok.first, ok.last, none, empty, ok.content⟩
  · split
    · exact ⟨ok.first, ok.last, none, empty, ok.content⟩
    · split
      · exact ⟨ok.first, ok.last, none, Or.inl empty.1, ok.content⟩
      · exact .error ok.first ok.last rfl ok.content

/-- **One octet.** -/
theorem parseOctet (sound : S.Sound) (good : Good S Γ w) {p : Parser} (ok : ParserOk p Γ w) (octet : UInt8) :
    Parses S Γ w (p.parseOctet S octet) VerdictOk := by
  have params : Parses S Γ w (p.parseParams S octet >>= fun p => Pure.pure p.lookahead) VerdictOk := by
    apply (Leaves.whileLoop (paramsSwitch sound octet) S.fuel p Γ w good ok).bind
    intro p' Γ₁ w₁ good₁ _ ok₁
    exact .pure good₁ (lookahead ok₁)
  have stdin : Parses S Γ w (p.parseStdin S octet >>= fun p => Pure.pure p.lookahead) VerdictOk := by
    apply (Leaves.whileLoop (stdinSwitch sound octet) S.fuel p Γ w good ok).bind
    intro p' Γ₁ w₁ good₁ _ ok₁
    exact .pure good₁ (lookahead ok₁)
  have low : octet.toNat < 2 ^ 8 := octet.toNat_lt
  unfold Parser.parseOctet
  dsimp only
  split
  case h_5 here =>
    have content : octet.toNat <<< 8 < 2 ^ 16 := by
      rw [Nat.shiftLeft_eq]
      omega
    exact .pure good (header ok (congrArg phase here) (congrArg stage here) rfl rfl content)
  case h_6 here =>
    have content : p.messageHeader.contentLength ||| octet.toNat < 2 ^ 16 := Nat.or_lt_two_pow ok.content.1 (by omega)
    exact .pure good (header ok (congrArg phase here) (congrArg stage here) rfl rfl content)
  case h_8 here =>
    have none : NoneOpen Γ := ok.inPhase (congrArg phase here)
    have empty : p.stdinData = 0 ∧ p.stdinLength = 0 := ok.inStage (congrArg stage here)
    split
    · refine .pure good ⟨ok.first, ok.last, none, fun address low high => ?_, ok.content⟩
      dsimp only at low high
      omega
    · have reserved : ParserOk { p with messageHeader := { p.messageHeader with reserved := octet } } Γ w :=
        ⟨ok.first, ok.last, ok.param, ok.stdin, ok.content⟩
      exact .pure good (dispatch reserved none empty _)
  all_goals first
    | exact params
    | exact stdin
    | exact .pure good ok
    | exact .pure good (parseBeginRequest ok (congrArg phase ‹_›) (congrArg stage ‹_›) octet)
    | exact .pure good (header ok (congrArg phase ‹_›) (congrArg stage ‹_›) rfl rfl ok.content.1)

/-- **A stream of octets.** -/
theorem parse (sound : S.Sound) : ∀ (octets : List UInt8) (p : Parser) (Γ : Typing) (w : World), Good S Γ w → ParserOk p Γ w →
    Parses S Γ w (p.parse S octets) fun r => ParserOk r.1
  | [], p, Γ, w, good, ok => .pure good ok
  | octet :: rest, p, Γ, w, good, ok => by
    unfold Parser.parse
    apply (parseOctet sound good ok octet).bind
    intro verdict Γ₁ w₁ good₁ _ ok₁
    cases verdict with
    | advance p' =>
      apply (parse sound rest p' Γ₁ w₁ good₁ ok₁).bind
      intro r Γ₂ w₂ good₂ _ ok₂
      exact .pure good₂ ok₂
    | finish p' => exact .pure good₁ ok₁
    | stop p' => exact .pure good₁ ok₁

end Parses

end Cpptrw.Leftover
