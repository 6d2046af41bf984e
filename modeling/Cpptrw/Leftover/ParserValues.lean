import Cpptrw.Leftover.StringValues
import Cpptrw.Leftover.Recycled
import Cpptrw.Fcgi.LogSafety
import Cpptrw.Fcgi.Record

/-!
# Parsers in memory stand for parsers

The parameters of a message are a chain of records in the arena. The last one
grows while it is parsed; those before it are known and stay what they are.
-/

namespace Cpptrw.Leftover

open Lib Lib.Layout Arena
open Fcgi (MsgParam)

variable {S : Setting} {known : Set Object} {owned rest objects : List Object} {pointer a next first last size : Nat}

/-! ## Parameters -/

/-- A region that may be missing. -/
inductive DataAt : Nat → Option Buffer → List Object → Prop
  | null : DataAt 0 none []
  | region {pointer : Nat} {contents : Buffer} (valid : pointer ≠ 0) (small : pointer < 2 ^ 64) :
      DataAt pointer (some contents) [⟨pointer, contents⟩]

/-- The two halves of a parameter. -/
inductive Half
  | name
  | value
  deriving DecidableEq

namespace Half

def other : Half → Half
  | .name => .value
  | .value => .name

/-- Where the length and the data are. -/
def fields : Half → Nat × Nat
  | .name => Parser.nameFields
  | .value => Parser.valueFields

def length : Half → MsgParam → Nat
  | .name => MsgParam.nameLength
  | .value => MsgParam.valueLength

def data : Half → MsgParam → Option Buffer
  | .name => MsgParam.name
  | .value => MsgParam.value

def withLength (half : Half) (param : MsgParam) (n : Nat) : MsgParam :=
  match half with
  | .name => { param with nameLength := n }
  | .value => { param with valueLength := n }

def withData (half : Half) (param : MsgParam) (data : Option Buffer) : MsgParam :=
  match half with
  | .name => { param with name := data }
  | .value => { param with value := data }

/-- The numbers of the two fields. -/
def numbers : Half → Nat × Nat
  | .name => (1, 3)
  | .value => (2, 4)

end Half

/-- The fields of a parameter in memory. -/
def paramFields (next : Nat) (param : MsgParam) (pointers : Half → Nat) : List (List UInt8) :=
  [toOctets 8 next, toOctets 4 param.nameLength, toOctets 4 param.valueLength, toOctets 8 (pointers .name), toOctets 8 (pointers .value)]

/-- **A parameter in memory**, with its data. -/
structure ParamAt (a next : Nat) (pointers : Half → Nat) (param : MsgParam) (objects : List Object) : Prop where
  valid : a ≠ 0
  small : a < 2 ^ 64
  link : next < 2 ^ 64
  lengths : ∀ half : Half, half.length param < 2 ^ 32
  parts : ∃ parts : Half → List Object, objects = ⟨a, record (paramFields next param pointers)⟩ :: (parts .name ++ parts .value) ∧
    ∀ half, DataAt (pointers half) (half.data param) (parts half)

variable {pointers : Half → Nat} {param : MsgParam} {half : Half}

theorem DataAt.small {data : Option Buffer} (h : DataAt pointer data objects) : pointer < 2 ^ 64 := by
  cases h with
  | null => decide
  | region _ small => exact small

theorem DataAt.of_none (h : DataAt pointer none objects) : objects = [] := by
  cases h
  rfl

theorem DataAt.of_some {contents : Buffer} (h : DataAt pointer (some contents) objects) :
    objects = [⟨pointer, contents⟩] ∧ pointer ≠ 0 ∧ pointer < 2 ^ 64 := by
  cases h with
  | region valid small => exact ⟨rfl, valid, small⟩

theorem DataAt.zero_iff {data : Option Buffer} (h : DataAt pointer data objects) : pointer = 0 ↔ data = none := by
  cases h with
  | null => simp
  | region valid => simpa using valid

theorem length_field (next : Nat) (param : MsgParam) (pointers : Half → Nat) (half : Half) :
    (paramFields next param pointers)[half.numbers.1]? = some (toOctets 4 (half.length param)) := by
  cases half <;> rfl

theorem data_field (next : Nat) (param : MsgParam) (pointers : Half → Nat) (half : Half) :
    (paramFields next param pointers)[half.numbers.2]? = some (toOctets 8 (pointers half)) := by
  cases half <;> rfl

theorem offset_fields (next : Nat) (param : MsgParam) (pointers : Half → Nat) (half : Half) :
    half.fields.1 = offsetOf (paramFields next param pointers) half.numbers.1 ∧
      half.fields.2 = offsetOf (paramFields next param pointers) half.numbers.2 := by
  cases half <;> simp [offsetOf, paramFields, Half.fields, Half.numbers, Parser.nameFields, Parser.valueFields]

theorem set_length (next : Nat) (param : MsgParam) (pointers : Half → Nat) (half : Half) (n : Nat) :
    (paramFields next param pointers).set half.numbers.1 (toOctets 4 n) = paramFields next (half.withLength param n) pointers := by
  cases half <;> rfl

theorem set_data (next : Nat) (param : MsgParam) (pointers : Half → Nat) (half : Half) (n : Nat) :
    (paramFields next param pointers).set half.numbers.2 (toOctets 8 n) = paramFields next param (Function.update pointers half n) := by
  cases half <;> rfl

theorem length_withLength (half half' : Half) (param : MsgParam) (n : Nat) :
    half'.length (half.withLength param n) = if half' = half then n else half'.length param := by
  cases half <;> cases half' <;> rfl

theorem data_withLength (half half' : Half) (param : MsgParam) (n : Nat) : half'.data (half.withLength param n) = half'.data param := by
  cases half <;> cases half' <;> rfl

theorem length_withData (half half' : Half) (param : MsgParam) (data : Option Buffer) :
    half'.length (half.withData param data) = half'.length param := by
  cases half <;> cases half' <;> rfl

theorem data_withData (half half' : Half) (param : MsgParam) (data : Option Buffer) :
    half'.data (half.withData param data) = if half' = half then data else half'.data param := by
  cases half <;> cases half' <;> rfl

/-- The data are in the pointers only. -/
theorem fields_withData (next : Nat) (half : Half) (param : MsgParam) (data : Option Buffer) (pointers : Half → Nat) :
    paramFields next (half.withData param data) pointers = paramFields next param pointers := by
  cases half <;> rfl

/-- The objects of one half come first. -/
theorem parts_perm (parts : Half → List Object) (half : Half) (o : Object) :
    (o :: (parts .name ++ parts .value)).Perm (parts half ++ o :: parts half.other) := by
  refine List.Perm.trans (.cons o ?_) List.perm_middle.symm
  cases half with
  | name => exact .refl _
  | value => exact List.perm_append_comm

/-- One half has other objects. -/
theorem parts_update (parts : Half → List Object) (half : Half) (part : List Object) (o : Object) :
    (part ++ o :: parts half.other).Perm (o :: (Function.update parts half part .name ++ Function.update parts half part .value)) := by
  have other : Function.update parts half part half.other = parts half.other := by cases half <;> rfl
  have whole := parts_perm (Function.update parts half part) half o
  rw [Function.update_self, other] at whole
  exact whole.symm

namespace ParamAt

theorem looks_length (h : ParamAt a next pointers param objects) (half : Half) :
    (layout S).Looks known objects (load32 S a half.fields.1) (half.length param) := by
  obtain ⟨parts, rfl, -⟩ := h.parts
  exact looks_load32 (Or.inr List.mem_cons_self) rfl (length_field ..) (offset_fields ..).1 (h.lengths half)

theorem looks_data (h : ParamAt a next pointers param objects) (half : Half) :
    (layout S).Looks known objects (load64 S a half.fields.2) (pointers half) := by
  obtain ⟨parts, rfl, data⟩ := h.parts
  exact looks_load64 (Or.inr List.mem_cons_self) rfl (data_field ..) (offset_fields ..).2 (data half).small

theorem zero_iff (h : ParamAt a next pointers param objects) (half : Half) : pointers half = 0 ↔ half.data param = none := by
  obtain ⟨parts, -, data⟩ := h.parts
  exact (data half).zero_iff

/-- The parameter is linked to the next one. -/
theorem updates_link (h : ParamAt a next pointers param objects) {next' : Nat} (small : next' < 2 ^ 64) :
    ∃ objects', ParamAt a next' pointers param objects' ∧ ∀ S known, (layout S).Updates known objects (store64 S a 0 next') objects' := by
  obtain ⟨parts, rfl, data⟩ := h.parts
  refine ⟨_, ⟨h.valid, h.small, small, h.lengths, parts, rfl, data⟩, fun S known => ?_⟩
  have link : (paramFields next param pointers)[0]? = some (toOctets 8 next) := rfl
  have set : (paramFields next param pointers).set 0 (toOctets 8 next') = paramFields next' param pointers := rfl
  rw [← set]
  exact (updates_field link rfl (by simp)).part (.refl _)

theorem updates_length (h : ParamAt a next pointers param objects) (half : Half) {n : Nat} (small : n < 2 ^ 32) :
    ∃ objects', ParamAt a next pointers (half.withLength param n) objects' ∧
      ∀ S known, (layout S).Updates known objects (store32 S a half.fields.1 n) objects' := by
  obtain ⟨parts, rfl, data⟩ := h.parts
  refine ⟨_, ⟨h.valid, h.small, h.link, fun half' => ?_, parts, rfl, fun half' => ?_⟩, fun S known => ?_⟩
  · rw [length_withLength]
    split
    · exact small
    · exact h.lengths half'
  · rw [data_withLength]
    exact data half'
  · rw [← set_length]
    exact (updates_field (length_field ..) (offset_fields ..).1 (by simp)).part (.refl _)

/-- A half without data gets a region. -/
theorem updates_data (h : ParamAt a next pointers param objects) (half : Half) (none : half.data param = none) (valid : pointer ≠ 0)
    (small : pointer < 2 ^ 64) (contents : Buffer) :
    ∃ objects', ParamAt a next (Function.update pointers half pointer) (half.withData param (some contents)) objects' ∧
      ∀ S known, (layout S).Updates known (⟨pointer, contents⟩ :: objects) (store64 S a half.fields.2 pointer) objects' := by
  obtain ⟨parts, rfl, data⟩ := h.parts
  have empty : parts half = [] := (none ▸ data half).of_none
  refine ⟨_, ⟨h.valid, h.small, h.link, fun half' => ?_, Function.update parts half [⟨pointer, contents⟩], rfl, fun half' => ?_⟩, fun S known => ?_⟩
  · rw [length_withData]
    exact h.lengths half'
  · rw [data_withData]
    by_cases same : half' = half
    · subst same
      rw [if_pos rfl, Function.update_self, Function.update_self]
      exact .region valid small
    · rw [if_neg same, Function.update_of_ne same, Function.update_of_ne same]
      exact data half'
  · have before := (parts_perm parts half ⟨a, record (paramFields next param pointers)⟩).cons ⟨pointer, contents⟩
    rw [empty, List.nil_append] at before
    have update := @updates_field _ half.numbers.2 _ (toOctets 8 pointer) S known a _ (data_field next param pointers half) (offset_fields ..).2 (by simp)
    rw [set_data] at update
    refine ((update.part (before.trans (.swap ..))).perm ?_ : (layout S).Updates known _ _ _)
    rw [fields_withData]
    exact (List.Perm.swap ..).trans (parts_update parts half [⟨pointer, contents⟩] _)

/-- There is no region for the data, and none is found. -/
theorem updates_null (h : ParamAt a next pointers param objects) (half : Half) (null : pointers half = 0) :
    (layout S).Updates known objects (store64 S a half.fields.2 0) objects := by
  obtain ⟨parts, rfl, data⟩ := h.parts
  have same : Function.update pointers half 0 = pointers := by rw [← null, Function.update_eq_self]
  have update := @updates_field _ half.numbers.2 _ (toOctets 8 0) S known a _ (data_field next param pointers half) (offset_fields ..).2 (by simp)
  rw [set_data, same] at update
  exact update.part (.refl _)

/-- An octet of the data is stored. -/
theorem updates_octet (h : ParamAt a next pointers param objects) (half : Half) {contents : Buffer} (some : half.data param = some contents)
    {i : Nat} (inside : i < contents.length) (octet : UInt8) :
    ∃ objects', ParamAt a next pointers (half.withData param (contents.write i [octet])) objects' ∧
      ∀ S known, (layout S).Updates known objects (store S (pointers half) i [octet]) objects' := by
  obtain ⟨parts, rfl, data⟩ := h.parts
  obtain ⟨here, valid, small⟩ := (some ▸ data half).of_some
  refine ⟨_, ⟨h.valid, h.small, h.link, fun half' => ?_, Function.update parts half [⟨pointers half, contents.write i [octet]⟩], rfl,
    fun half' => ?_⟩, fun S known => ?_⟩
  · rw [length_withData]
    exact h.lengths half'
  · rw [data_withData]
    by_cases same : half' = half
    · subst same
      rw [if_pos rfl, Function.update_self]
      exact .region valid small
    · rw [if_neg same, Function.update_of_ne same]
      exact data half'
  · have before := parts_perm parts half ⟨a, record (paramFields next param pointers)⟩
    rw [here] at before
    rw [fields_withData]
    have update := @updates_store [octet] S known (pointers half) i contents (by rw [List.length_singleton]; omega)
    exact (update.part before).perm (parts_update parts half [⟨pointers half, contents.write i [octet]⟩] _)

/-- The first octets of the data can be read. -/
theorem sources (h : ParamAt a next pointers param objects) (half : Half) {contents : Buffer} (some : half.data param = some contents)
    {n : Nat} {octets : List UInt8} (read : contents.read n = .ok octets) : Sources S known objects (.memory (pointers half) n) octets := by
  obtain ⟨length, back, rfl⟩ := Buffer.exists_of_read read
  refine ⟨length.symm, ?_⟩
  obtain ⟨parts, rfl, data⟩ := h.parts
  obtain ⟨here, -⟩ := (some ▸ data half).of_some
  have whole := parts_perm parts half ⟨a, record (paramFields next param pointers)⟩
  rw [here] at whole
  have there : (⟨pointers half, octets.map Option.some ++ back⟩ : Object) ∈ (⟨a, record (paramFields next param pointers)⟩ : Object) ::
      (parts .name ++ parts .value) := whole.mem_iff.mpr List.mem_cons_self
  exact looks_front (Or.inr there) length

end ParamAt

/-! ## Parsers -/

/-- Parameters, one linked to the next, and all objects that they consist of. -/
inductive Chain : Nat → List MsgParam → Nat → List Object → Prop
  | nil (a : Nat) : Chain a [] a []
  | cons {a next behind : Nat} {pointers : Half → Nat} {param : MsgParam} {params : List MsgParam} {objects others : List Object}
      (here : ParamAt a next pointers param objects) (rest : Chain next params behind others) :
      Chain a (param :: params) behind (objects ++ others)

/-- The parameters of a parser. The last one is owned, and the objects of the others lie apart. -/
inductive ParamsAt (known : Set Object) : Nat → Nat → List MsgParam → List Object → Prop
  | none : ParamsAt known 0 0 [] []
  | some {first last : Nat} {pointers : Half → Nat} {params : List MsgParam} {param : MsgParam} {others objects : List Object}
      (front : Chain first params last others) (there : ∀ o ∈ others, o ∈ known) (apart : Apart others)
      (here : ParamAt last 0 pointers param objects) : ParamsAt known first last (params ++ [param]) objects

/-- Where the parameters and the data of a parser are. -/
def Lies (known : Set Object) (owned : List Object) (first last data : Nat) (params : List MsgParam) (stdin : Option Buffer) : Prop :=
  ∃ front back, owned = front ++ back ∧ ParamsAt known first last params front ∧ DataAt data stdin back

/-- The fields of a parser that is in memory. -/
def inMemory (q : Fcgi.Parser) (first last data : Nat) : Parser where
  state := q.state
  readCounter := q.readCounter
  messageSize := q.messageSize
  messageHeader := q.messageHeader
  beginMessage := q.beginMessage
  firstParam := first
  lastParam := last
  stdinLength := q.stdinStream.length
  stdinData := data

theorem readCounter_inMemory (q : Fcgi.Parser) (first last data : Nat) : (inMemory q first last data).readCounter = q.readCounter := rfl

theorem stdinData_inMemory (q : Fcgi.Parser) (first last data : Nat) : (inMemory q first last data).stdinData = data := rfl

/-- **A parser in memory stands for a parser.** -/
def Represents (known : Set Object) (owned : List Object) (p : Parser) (q : Fcgi.Parser) : Prop :=
  (q.messageHeader.contentLength < 2 ^ 16 ∧ q.stdinStream.length < 2 ^ 16) ∧
    ∃ first last data, p = inMemory q first last data ∧ Lies known owned first last data q.params q.stdinStream.data

variable {params : List MsgParam} {others : List Object}

namespace Chain

theorem snoc (h : Chain first params a others) (here : ParamAt a next pointers param objects) :
    Chain first (params ++ [param]) next (others ++ objects) := by
  generalize same : a = behind at h
  induction h with
  | nil =>
    subst same
    have one := Chain.cons here (.nil next)
    rwa [List.append_nil] at one
  | cons first' _ ih =>
    rw [List.append_assoc]
    exact .cons first' (ih same)

theorem valid (h : Chain first params a others) (valid : a ≠ 0) : first ≠ 0 := by
  cases h with
  | nil => exact valid
  | cons here => exact here.valid

end Chain

theorem ParamsAt.zero_iff (h : ParamsAt known first last params objects) : first = 0 ↔ params = [] := by
  cases h with
  | none => exact iff_of_true rfl rfl
  | some chain _ _ here => exact iff_of_false (chain.valid here.valid) (by simp)

/-- The last parameter, and what is left when it has changed. -/
theorem Lies.focus {q : Fcgi.Parser} {data : Nat} {stdin : Option Buffer} (h : Lies known owned first last data q.params stdin)
    (there : q.last = .ok param) : ∃ pointers objects rest, owned = objects ++ rest ∧ ParamAt last 0 pointers param objects ∧
      ∀ pointers' param' objects', ParamAt last 0 pointers' param' objects' →
        Lies known (objects' ++ rest) first last data (q.params.dropLast ++ [param']) stdin := by
  obtain ⟨front, back, rfl, params, stdin⟩ := h
  unfold Fcgi.Parser.last at there
  revert there
  generalize q.params = all at params
  intro there
  cases params with
  | none => cases there
  | @some _ _ pointers _ _ _ _ chain old apart here =>
    rw [List.getLast?_append_of_ne_nil _ (by simp)] at there
    cases there
    refine ⟨pointers, front, back, rfl, here, fun pointers' param' objects' here' => ⟨objects', back, rfl, ?_, stdin⟩⟩
    rw [List.dropLast_concat]
    exact .some chain old apart here'

/-! ## Steps -/

variable {p : Parser} {q : Fcgi.Parser} {α β : Type} {f : Nat × Bool → Code α} {n : Prog (arenaPlatform S) β} {fit : β → Prop}
  {post : Set Object → List Object → α → β → Prop} {fits : Prog.Flow Fcgi.Parser Fcgi.Parser → Prop} {octet : UInt8}

/-- Behind a pass of the parser. -/
abbrev Passed : Set Object → List Object → Prog.Flow Parser Parser → Prog.Flow Fcgi.Parser Fcgi.Parser → Prop :=
  Layout.Pass Represents Represents

/-- The cases that or one more octet into a length. -/
theorem realizes_paramLength (half : Half) (octet : UInt8) {shift : Nat} (low : shift ≤ 16) (next : Fcgi.ParserState)
    (here : Represents known owned p q) :
    (layout S).Realizes known owned (p.paramLength S half.fields octet shift next)
      (Prog.lift q.last >>= fun param => pure (.done { q.setLast (half.withLength param (half.length param ||| octet.toNat <<< shift)) with
        state := next })) fits Passed := by
  obtain ⟨small, first, last, data, rfl, lies⟩ := here
  unfold Parser.paramLength
  apply Realizes.compute
  intro param there
  obtain ⟨pointers, objects, rest, rfl, at', after⟩ := Lies.focus lies there
  apply Realizes.look ((at'.looks_length half).weaken subset_rfl (.refl _))
  have bound : half.length param ||| octet.toNat <<< shift < 2 ^ 32 := by
    refine Nat.or_lt_two_pow (at'.lengths half) ?_
    rw [Nat.shiftLeft_eq]
    have := octet.toNat_lt
    have := Nat.pow_le_pow_right (by decide : 0 < 2) low
    nlinarith
  obtain ⟨objects', at'', update⟩ := at'.updates_length half bound
  apply Realizes.update ((update _ _).part (.refl _))
  exact .pure ⟨small, first, last, data, rfl, after _ _ _ at''⟩

/-- The value of the first octet of a length. -/
def firstLength (octet : UInt8) : Nat := if Fcgi.Parser.isLong octet then (octet &&& 0x7f).toNat <<< 24 else octet.toNat

theorem firstLength_lt (octet : UInt8) : firstLength octet < 2 ^ 32 := by
  unfold firstLength
  split
  · rw [Nat.shiftLeft_eq]
    have := (octet &&& 0x7f).toNat_lt
    omega
  · have := octet.toNat_lt
    omega

/-- The first octet of a length is stored. -/
theorem realizes_storeLength (here : ParamAt a next pointers param objects) (half : Half) (octet : UInt8)
    (then' : ∀ objects', ParamAt a next pointers (half.withLength param (firstLength octet)) objects' →
      (layout S).Realizes known (objects' ++ rest) (f (if Fcgi.Parser.isLong octet then (4, true) else (1, false))) n fit post) :
    (layout S).Realizes known (objects ++ rest) (Parser.storeLength S a half.fields octet >>= f) n fit post := by
  obtain ⟨objects', here', update⟩ := here.updates_length half (firstLength_lt octet)
  have then'' := then' objects' here'
  unfold Parser.storeLength
  unfold firstLength at update
  split
  · rename_i long
    rw [if_pos long] at update then''
    rw [bind_assoc]
    exact Realizes.update ((update _ _).part (.refl _)) then''
  · rename_i short
    rw [if_neg short] at update then''
    rw [bind_assoc]
    exact Realizes.update ((update _ _).part (.refl _)) then''

theorem realizes_paramValueLengthB3 (octet : UInt8) (here : Represents known owned p q) :
    (layout S).Realizes known owned (p.paramValueLengthB3 S octet) (q.paramValueLengthB3 octet) fits Passed := by
  obtain ⟨small, first, last, data, rfl, lies⟩ := here
  unfold Parser.paramValueLengthB3 Fcgi.Parser.paramValueLengthB3
  apply Realizes.compute
  intro param there
  obtain ⟨pointers, objects, rest, rfl, at', after⟩ := Lies.focus lies there
  apply realizes_storeLength at' .value octet
  intro objects' at''
  unfold firstLength at at''
  by_cases long : Fcgi.Parser.isLong octet
  · simp only [if_pos long] at at'' ⊢
    exact .pure ⟨small, first, last, data, rfl, after _ _ _ at''⟩
  · simp only [if_neg long] at at'' ⊢
    exact .pure ⟨small, first, last, data, rfl, after _ _ _ at''⟩

/-! ## A new parameter -/

/-- A region becomes a parameter. -/
theorem updates_newParam (valid : a ≠ 0) (small : a < 2 ^ 64) : ∃ objects', ParamAt a 0 (fun _ => 0) {} objects' ∧
    ∀ S known, (layout S).Updates known [⟨a, Buffer.fresh Fcgi.sizeofMsgParam⟩] (storeWords S a [0, 0, 0, 0]) objects' := by
  refine ⟨_, ⟨valid, small, by decide, fun half => by cases half <;> decide, fun _ => [], rfl, fun half => by cases half <;> exact .null⟩, ?_⟩
  intro S known
  have zeros : (words [0, 0, 0, 0]).map some = record (paramFields 0 {} fun _ => 0) := by decide
  rw [List.append_nil, ← zeros]
  exact updates_whole (by decide)

/-- The last parameter, if there is one, is linked to a new one, and is known from then on. Its objects were
owned before, and so lie apart from those that were known. -/
theorem realizes_link {f : Unit → Code α} (h : ParamsAt known first last params objects) (small : a < 2 ^ 64)
    (then' : ∀ known' others, Chain (if first = 0 then a else first) params a others → (∀ o ∈ others, o ∈ known') → Apart others →
      (layout S).Realizes known' rest (f ()) n fit post) :
    (layout S).Realizes known (objects ++ rest) (Machine.when (last ≠ 0) (store64 S last 0 a) >>= f) n fit post := by
  cases h with
  | none =>
    rw [Machine.when, if_neg (not_not.mpr rfl), pure_bind]
    exact then' known [] (.nil a) nofun .nil
  | @some _ _ _ _ _ others _ chain old apart here =>
    rw [Machine.when, if_pos here.valid]
    obtain ⟨objects', here', update⟩ := here.updates_link small
    apply Realizes.update ((update _ _).part (.refl _))
    apply Realizes.of_held fun w frame laid => Laid.apart_append laid old apart
    intro apart'
    refine Realizes.of_leads (then' _ (others ++ objects') ?_ ?_ apart') (.share objects' rest)
    · rw [if_neg (chain.valid here.valid)]
      exact chain.snoc here'
    · intro o there
      exact (List.mem_append.mp there).imp (old o) id

theorem realizes_paramNameLengthB3 (sound : S.Sound) (octet : UInt8) (here : Represents known owned p q) :
    (layout S).Realizes known owned (p.paramNameLengthB3 S octet) (q.paramNameLengthB3 octet) fits Passed := by
  obtain ⟨small, first, last, data, rfl, front, back, rfl, params, stdin⟩ := here
  unfold Parser.paramNameLengthB3 Fcgi.Parser.paramNameLengthB3
  apply (realizes_allocate sound (Or.inl (by decide))).bind
  rintro _ _ param _ - ⟨rfl, ⟨rfl, rfl, rfl⟩ | ⟨rfl, valid, short, rfl⟩⟩
  · exact .pure ⟨small, first, last, data, rfl, front, back, rfl, params, stdin⟩
  rw [if_neg valid, if_pos rfl]
  obtain ⟨objects, new, update⟩ := updates_newParam valid short
  apply Realizes.update ((update _ _).part (.refl _))
  refine Realizes.of_leads ?_ (.of_perm (?_ : (objects ++ (front ++ back)).Perm (front ++ (objects ++ back))))
  · apply realizes_link params short
    intro known' others chain old apart
    apply realizes_storeLength new .name octet
    intro objects' new'
    unfold firstLength at new'
    simp only [← params.zero_iff]
    by_cases long : Fcgi.Parser.isLong octet
    · simp only [if_pos long, if_true] at new' ⊢
      exact .pure ⟨small, _, param, data, rfl, objects', back, rfl, .some chain old apart new', stdin⟩
    · simp only [if_neg long, Bool.false_eq_true, if_false] at new' ⊢
      exact .pure ⟨small, _, param, data, rfl, objects', back, rfl, .some chain old apart new', stdin⟩
  · rw [← List.append_assoc, ← List.append_assoc]
    exact List.perm_append_comm.append_right back

/-! ## The data of a parameter -/

/-- `openName` and `openValue` are one function. -/
def openHalf (half : Half) (q : Fcgi.Parser) : Prog (arenaPlatform S) (Option Fcgi.Parser) := do
  let param ← Prog.lift q.last
  if half.data param = none then
    if ← Prog.allocate (half.length param + 1) then
      pure (some { q.setLast (half.withData param (some (Buffer.fresh (half.length param + 1)))) with
        readCounter := half.length param
        messageSize := q.messageSize + half.length param })
    else
      pure none
  else
    pure (some q)

/-- Whether or not there is a region. -/
def Opened (p : Parser) (q : Fcgi.Parser) (known : Set Object) (owned : List Object) : Option Parser → Option Fcgi.Parser → Prop
  | some p', some q' => Represents known owned p' q'
  | none, none => Represents known owned p q
  | _, _ => False

theorem represents_error (here : Represents known owned p q) : Represents known owned { p with state := .error } { q with state := .error } := by
  obtain ⟨small, first, last, data, rfl, lies⟩ := here
  exact ⟨small, first, last, data, rfl, lies⟩

theorem Opened.cases {p' : Option Parser} {q' : Option Fcgi.Parser} (opened : Opened p q known owned p' q') :
    p' = none ∧ q' = none ∧ Represents known owned p q ∨ ∃ p'' q'', p' = some p'' ∧ q' = some q'' ∧ Represents known owned p'' q'' := by
  cases p' with
  | none =>
    cases q' with
    | none => exact Or.inl ⟨rfl, rfl, opened⟩
    | some q'' => exact opened.elim
  | some p'' =>
    cases q' with
    | none => exact opened.elim
    | some q'' => exact Or.inr ⟨p'', q'', rfl, rfl, opened⟩

theorem realizes_openData (sound : S.Sound) (half : Half) (here : Represents known owned p q) :
    (layout S).Realizes known owned (p.openData S half.fields) (openHalf half q) Any (Opened p q) := by
  obtain ⟨small, first, last, data, rfl, lies⟩ := here
  unfold Parser.openData openHalf
  apply Realizes.compute
  intro param there
  obtain ⟨pointers, objects, rest, rfl, at', after⟩ := Lies.focus lies there
  apply Realizes.look ((at'.looks_data half).weaken subset_rfl (.refl _))
  by_cases none : half.data param = none
  · have null := (at'.zero_iff half).mpr none
    rw [if_pos null, if_pos none]
    apply Realizes.look ((at'.looks_length half).weaken subset_rfl (.refl _))
    have length := at'.lengths half
    apply (realizes_allocate sound (Or.inl (by omega))).bind
    rintro _ _ region _ - ⟨rfl, ⟨rfl, rfl, rfl⟩ | ⟨rfl, valid, short, rfl⟩⟩
    · apply Realizes.update ((at'.updates_null half null).part (.refl _))
      rw [if_pos rfl, if_neg Bool.false_ne_true]
      exact .pure ⟨small, first, last, data, rfl, lies⟩
    · obtain ⟨objects', at'', update⟩ := at'.updates_data half none valid short (Buffer.fresh (half.length param + 1))
      apply Realizes.update ((update _ _).part (.refl _))
      rw [if_neg valid, if_pos rfl]
      exact .pure ⟨small, first, last, data, rfl, after _ _ _ at''⟩
  · rw [if_neg (mt (at'.zero_iff half).mp none), if_neg none]
    exact .pure ⟨small, first, last, data, rfl, lies⟩

/-- An octet of the data is stored, once a region is there. -/
theorem realizes_storeAt {f : Unit → Code α} {g : Buffer → Prog (arenaPlatform S) β} (half : Half) {i : Nat}
    (at' : ParamAt last 0 pointers param objects)
    (then' : ∀ contents objects', ParamAt last 0 pointers (half.withData param (some contents)) objects' →
      (layout S).Realizes known (objects' ++ rest) (f ()) (g contents) fit post) :
    (layout S).Realizes known (objects ++ rest) (store S (pointers half) i [octet] >>= f)
      (Prog.lift (Fcgi.storeAt (half.data param) i octet) >>= g) fit post := by
  apply Realizes.compute
  intro contents stored
  unfold Fcgi.storeAt at stored
  split at stored
  · cases stored
  · rename_i old some
    obtain ⟨inside, rfl⟩ := Buffer.write_of_store stored
    obtain ⟨objects', at'', update⟩ := at'.updates_octet half some inside octet
    exact Realizes.update ((update _ _).part (.refl _)) (then' _ _ at'')

theorem realizes_paramNameData (sound : S.Sound) (octet : UInt8) (here : Represents known owned p q) :
    (layout S).Realizes known owned (p.paramNameData S octet) (q.paramNameData octet) fits Passed := by
  unfold Parser.paramNameData Fcgi.Parser.paramNameData
  apply (realizes_openData sound .name here).bind
  rintro known owned p' q' - opened
  rcases opened.cases with ⟨rfl, rfl, same⟩ | ⟨p', q', rfl, rfl, small, first, last, data, rfl, lies⟩
  · exact .pure (represents_error same)
  · dsimp only
    apply Realizes.compute
    intro param there
    obtain ⟨pointers, objects, rest, rfl, at', after⟩ := Lies.focus lies there
    apply Realizes.look ((at'.looks_length .name).weaken subset_rfl (.refl _))
    apply Realizes.look ((at'.looks_data .name).weaken subset_rfl (.refl _))
    rw [readCounter_inMemory]
    by_cases all : q'.readCounter = 0
    · rw [if_pos all, if_pos all]
      apply realizes_storeAt .name at'
      intro contents objects' at''
      exact .pure ⟨small, first, last, data, rfl, after _ _ _ at''⟩
    · rw [if_neg all, if_neg all]
      apply realizes_storeAt .name at'
      intro contents objects' at''
      exact .pure ⟨small, first, last, data, rfl, after _ _ _ at''⟩

/-- What is asked of a state: no name of 48 octets was logged on the way to it. -/
abbrev Logged : Prog.Flow Fcgi.Parser Fcgi.Parser → Prop := Fitting Fcgi.Parser.LogFits Fcgi.Parser.LogFits

theorem logFits_passed_iff (r : Prog.Flow Fcgi.Parser Fcgi.Parser) : Logged r ↔ (Fcgi.Parser.passed r).LogFits := by
  cases r <;> rfl

/-- The line of a parameter is written, unless its name has 48 octets. -/
theorem realizes_logParameter (sound : S.Sound) (here : ParamAt last 0 pointers param objects) {contents : Buffer}
    (value : param.value = some contents) {nameOctets valueOctets : List UInt8}
    (name : Fcgi.readAt param.name param.nameLength = .ok nameOctets) (read : contents.read param.valueLength = .ok valueOctets) :
    (layout S).Realizes known (objects ++ rest)
      (logWriteFormat S Fcgi.parameterFormat [.string (Text.Sharing.initWithBuffer (pointers .name) param.nameLength),
        .string (Text.Sharing.initWithBuffer (pointers .value) param.valueLength)])
      (Fcgi.logWriteFormat Fcgi.parameterFormat [.string (some nameOctets), .string (some valueOctets)])
      (fun _ => param.nameLength ≠ 48) fun known' owned' _ _ => known' = known ∧ owned' = objects ++ rest := by
  intro w frame y t h run other
  unfold Fcgi.readAt at name
  split at name
  · cases name
  rename_i buffer some
  have reads : ∀ {half octets n}, Sources S known objects (.memory (pointers half) n) octets →
      Sources S known (objects ++ rest) (.memory (pointers half) n) octets :=
    fun sources => ⟨sources.length, sources.looks.weaken subset_rfl (.refl _)⟩
  have nameLength := (Buffer.exists_of_read name).1
  have valueLength := (Buffer.exists_of_read read).1
  have safe := @Fcgi.parameter_safe nameOctets valueOctets (by rw [nameLength]; exact other)
    ⟨by rw [nameLength]; exact here.lengths .name, by rw [valueLength]; exact here.lengths .value⟩
  refine (realizes_logWriteFormat sound (Fcgi.parameter_matching _ _) safe (.cons (.string ?_) (.cons (.string ?_) .nil))) w frame y t h run trivial
  · exact reads (here.sources .name some name)
  · exact reads (here.sources .value value read)

theorem passed_afterPair (here : Represents known owned p q) : Passed known owned p.afterPair q.afterPair := by
  obtain ⟨small, first, last, data, rfl, lies⟩ := here
  unfold Parser.afterPair Fcgi.Parser.afterPair
  by_cases full : q.messageSize = q.messageHeader.contentLength
  · rw [if_pos full, if_pos (show (inMemory q first last data).messageSize = (inMemory q first last data).messageHeader.contentLength from full)]
    by_cases none : q.messageHeader.paddingLength = 0
    · rw [if_pos none, if_pos (show (inMemory q first last data).messageHeader.paddingLength = 0 from none)]
      exact ⟨small, first, last, data, rfl, lies⟩
    · rw [if_neg none, if_neg (show (inMemory q first last data).messageHeader.paddingLength ≠ 0 from none)]
      exact ⟨small, first, last, data, rfl, lies⟩
  · rw [if_neg full, if_neg (show (inMemory q first last data).messageSize ≠ (inMemory q first last data).messageHeader.contentLength from full)]
    exact ⟨small, first, last, data, rfl, lies⟩

theorem realizes_paramValueData (sound : S.Sound) (octet : UInt8) (here : Represents known owned p q) :
    (layout S).Realizes known owned (p.paramValueData S octet) (q.paramValueData octet) Logged Passed := by
  unfold Parser.paramValueData Fcgi.Parser.paramValueData
  apply (realizes_openData sound .value here).bind
  rintro known owned p' q' - opened
  rcases opened.cases with ⟨rfl, rfl, same⟩ | ⟨p', q', rfl, rfl, small, first, last, data, rfl, lies⟩
  · exact .pure (represents_error same)
  · dsimp only
    apply Realizes.compute
    intro param there
    obtain ⟨pointers, objects, rest, rfl, at', after⟩ := Lies.focus lies there
    apply Realizes.look ((at'.looks_length .value).weaken subset_rfl (.refl _))
    apply Realizes.look ((at'.looks_data .value).weaken subset_rfl (.refl _))
    rw [readCounter_inMemory]
    by_cases all : q'.readCounter = 0
    · rw [if_pos all, if_pos all]
      apply realizes_storeAt .value at'
      intro contents objects' at''
      apply Realizes.compute
      intro nameOctets name
      apply Realizes.compute
      intro valueOctets read
      apply Realizes.look ((at''.looks_length .name).weaken subset_rfl (.refl _))
      apply Realizes.look ((at''.looks_data .name).weaken subset_rfl (.refl _))
      apply (realizes_logParameter sound at'' rfl name read).bindFit
      · refine fun _ => Prog.returns_pure fun fits same => ?_
        refine (logFits_passed_iff _).mp fits ?_
        rw [Fcgi.Parser.nameLengths_afterPair, ← same]
        exact List.mem_map_of_mem (List.mem_append_right _ List.mem_cons_self)
      · rintro known' _ _ _ grows ⟨rfl, rfl⟩
        exact .pure (passed_afterPair ⟨small, first, last, data, rfl, after _ _ _ at''⟩)
    · rw [if_neg all, if_neg all]
      apply realizes_storeAt .value at'
      intro contents objects' at''
      exact .pure ⟨small, first, last, data, rfl, after _ _ _ at''⟩

/-! ## Stdin -/

theorem realizes_openStdin (sound : S.Sound) (here : Represents known owned p q) :
    (layout S).Realizes known owned (p.openStdin S) q.openStdin Any (Opened p q) := by
  obtain ⟨small, first, last, data, rfl, front, back, rfl, params, stdin⟩ := here
  unfold Parser.openStdin Fcgi.Parser.openStdin
  rw [stdinData_inMemory]
  by_cases none : q.stdinStream.data = none
  · rw [if_pos none, if_pos (stdin.zero_iff.mpr none)]
    have length := small.1
    apply (realizes_allocate sound (Or.inl (by dsimp only [inMemory]; omega))).bind
    rintro _ _ region _ - ⟨rfl, ⟨rfl, rfl, rfl⟩ | ⟨rfl, valid, short, rfl⟩⟩
    · rw [if_pos rfl, if_neg Bool.false_ne_true]
      exact .pure ⟨small, first, last, data, rfl, front, back, rfl, params, stdin⟩
    · rw [if_neg valid, if_pos rfl]
      rw [none] at stdin
      obtain rfl := stdin.of_none
      rw [List.append_nil]
      refine Realizes.of_leads (.pure ⟨⟨length, length⟩, first, last, region, rfl, front, [_], rfl, params, .region valid short⟩) (.of_perm ?_)
      exact (List.perm_append_singleton _ _).symm
  · rw [if_neg none, if_neg (mt stdin.zero_iff.mp none)]
    exact .pure ⟨small, first, last, data, rfl, front, back, rfl, params, stdin⟩

theorem passed_afterStdin (here : Represents known owned p q) : Passed known owned p.afterStdin q.afterStdin := by
  obtain ⟨small, first, last, data, rfl, lies⟩ := here
  unfold Parser.afterStdin Fcgi.Parser.afterStdin
  by_cases some : 0 < q.messageHeader.paddingLength
  · rw [if_pos some, if_pos (show 0 < (inMemory q first last data).messageHeader.paddingLength from some)]
    exact ⟨small, first, last, data, rfl, lies⟩
  · rw [if_neg some, if_neg (show ¬0 < (inMemory q first last data).messageHeader.paddingLength from some)]
    exact ⟨small, first, last, data, rfl, lies⟩

theorem Represents.readCounter (h : Represents known owned p q) : p.readCounter = q.readCounter := by
  obtain ⟨-, first, last, data, rfl, -⟩ := h
  rfl

theorem Represents.stdinLength (h : Represents known owned p q) : p.stdinLength = q.stdinStream.length := by
  obtain ⟨-, first, last, data, rfl, -⟩ := h
  rfl

/-- The line of the data is written. -/
theorem realizes_logStdin (sound : S.Sound) (here : Represents known owned p q) {contents : Buffer} (there : q.stdinStream.data = some contents)
    {octets : List UInt8} (read : contents.read q.stdinStream.length = .ok octets) :
    (layout S).Realizes known owned (logWriteFormat S Fcgi.stdinFormat [.string (Text.Sharing.initWithBuffer p.stdinData q.stdinStream.length)])
      (Fcgi.logWriteFormat Fcgi.stdinFormat [.string (some octets)]) Any fun known' owned' _ _ => known' = known ∧ owned' = owned := by
  obtain ⟨small, first, last, data, rfl, front, back, rfl, params, stdin⟩ := here
  obtain ⟨length, behind, rfl⟩ := Buffer.exists_of_read read
  rw [there] at stdin
  obtain ⟨rfl, -⟩ := stdin.of_some
  have short : octets.length < 2 ^ 32 := by
    rw [length]
    omega
  have sources : Sources S known (front ++ [⟨data, octets.map some ++ behind⟩]) (.memory data q.stdinStream.length) octets :=
    ⟨length.symm, looks_front (Or.inr (List.mem_append_right _ List.mem_cons_self)) length⟩
  exact realizes_logWriteFormat sound (Fcgi.stdin_matching octets) (Fcgi.stdin_safe short) (.cons (.string sources) .nil)

/-- An octet of the data is stored. -/
theorem realizes_storeStdin {f : Unit → Code α} {g : Buffer → Prog (arenaPlatform S) β} {i : Nat} (here : Represents known owned p q)
    (then' : ∀ contents owned', Represents known owned' p { q with stdinStream.data := some contents } →
      (layout S).Realizes known owned' (f ()) (g contents) fit post) :
    (layout S).Realizes known owned (store S p.stdinData i [octet] >>= f) (Prog.lift (Fcgi.storeAt q.stdinStream.data i octet) >>= g) fit post := by
  obtain ⟨small, first, last, data, rfl, front, back, rfl, params, stdin⟩ := here
  apply Realizes.compute
  intro contents stored
  unfold Fcgi.storeAt at stored
  split at stored
  · cases stored
  · rename_i old some
    obtain ⟨inside, rfl⟩ := Buffer.write_of_store stored
    rw [some] at stdin
    obtain ⟨rfl, valid, short⟩ := stdin.of_some
    have update := @updates_store [octet] S known data i old (by rw [List.length_singleton]; omega)
    apply Realizes.update ((update.part (List.perm_append_comm : (front ++ [_]).Perm ([_] ++ front))).perm List.perm_append_comm)
    exact then' _ _ ⟨small, first, last, data, rfl, front, [_], rfl, params, .region valid short⟩

theorem realizes_stdinOctet (sound : S.Sound) (octet : UInt8) (here : Represents known owned p q) :
    (layout S).Realizes known owned (p.stdinOctet S octet) (q.stdinData octet) Any Passed := by
  unfold Parser.stdinOctet Fcgi.Parser.stdinData
  apply (realizes_openStdin sound here).bind
  rintro known owned p' q' - opened
  rcases opened.cases with ⟨rfl, rfl, small, first, last, data, rfl, lies⟩ | ⟨p', q', rfl, rfl, opened⟩
  · exact .pure ⟨⟨small.1, small.1⟩, first, last, data, rfl, lies⟩
  · dsimp only
    rw [opened.readCounter, opened.stdinLength]
    by_cases all : q'.readCounter = 0
    · rw [if_pos all, if_pos all]
      apply realizes_storeStdin opened
      intro contents owned' opened'
      apply Realizes.compute
      intro octets read
      apply (realizes_logStdin sound opened' rfl read).bind
      rintro _ _ _ _ - ⟨rfl, rfl⟩
      exact .pure (passed_afterStdin opened')
    · rw [if_neg all, if_neg all]
      apply realizes_storeStdin opened
      intro contents owned' opened'
      obtain ⟨small, first, last, data, rfl, lies⟩ := opened'
      exact .pure ⟨small, first, last, data, rfl, lies⟩

/-! ## The octet loop -/

theorem Represents.state (h : Represents known owned p q) : p.state = q.state := by
  obtain ⟨-, first, last, data, rfl, -⟩ := h
  rfl

theorem represents_padding (here : Represents known owned p q) : Represents known owned p.padding q.padding := by
  obtain ⟨small, first, last, data, rfl, lies⟩ := here
  exact ⟨small, first, last, data, rfl, lies⟩

theorem represents_parseBeginRequest (octet : UInt8) (here : Represents known owned p q) :
    Represents known owned (p.parseBeginRequest octet) (q.parseBeginRequest octet) := by
  obtain ⟨small, first, last, data, rfl, lies⟩ := here
  obtain ⟨state, readCounter, messageSize, header, beginMessage, all, stdinStream⟩ := q
  cases state <;> exact ⟨small, first, last, data, rfl, lies⟩

theorem realizes_paramsSwitch (sound : S.Sound) (octet : UInt8) (here : Represents known owned p q) :
    (layout S).Realizes known owned (p.paramsSwitch S octet) (q.paramsSwitch octet) Logged Passed := by
  have error : (layout S).Realizes known owned (pure (.done { p with state := .error })) (pure (.done { q with state := .error }))
      Logged Passed := .pure (represents_error here)
  unfold Parser.paramsSwitch Fcgi.Parser.paramsSwitch
  rw [here.state]
  cases q.state with
  | paramNameLengthB3 => exact realizes_paramNameLengthB3 sound octet here
  | paramNameLengthB2 => exact realizes_paramLength .name octet (by decide) .paramNameLengthB1 here
  | paramNameLengthB1 => exact realizes_paramLength .name octet (by decide) .paramNameLengthB0 here
  | paramNameLengthB0 => exact realizes_paramLength .name octet (by decide) .paramValueLengthB3 here
  | paramValueLengthB3 => exact realizes_paramValueLengthB3 octet here
  | paramValueLengthB2 => exact realizes_paramLength .value octet (by decide) .paramValueLengthB1 here
  | paramValueLengthB1 => exact realizes_paramLength .value octet (by decide) .paramValueLengthB0 here
  | paramValueLengthB0 => exact realizes_paramLength .value octet (by decide) .paramNameData here
  | paramNameData => exact realizes_paramNameData sound octet here
  | paramValueData => exact realizes_paramValueData sound octet here
  | paramPadding => exact .pure (represents_padding here)
  | _ => exact error

theorem realizes_stdinSwitch (sound : S.Sound) (octet : UInt8) (here : Represents known owned p q) :
    (layout S).Realizes known owned (p.stdinSwitch S octet) (q.stdinSwitch octet) Any Passed := by
  have error : (layout S).Realizes known owned (pure (.done { p with state := .error })) (pure (.done { q with state := .error }))
      Any Passed := .pure (represents_error here)
  unfold Parser.stdinSwitch Fcgi.Parser.stdinSwitch
  rw [here.state]
  cases q.state with
  | stdinData => exact realizes_stdinOctet sound octet here
  | stdinPadding => exact .pure (represents_padding here)
  | _ => exact error

theorem realizes_parseParams (sound : S.Sound) (fuel : 4 ≤ S.fuel) (octet : UInt8) (here : Represents known owned p q) :
    (layout S).Realizes known owned (p.parseParams S octet) (q.parseParams octet) Fcgi.Parser.LogFits Represents := by
  refine Realizes.whileLoop (fun q' => ?_) (fun known owned p q here => realizes_paramsSwitch sound octet here) fuel here
  exact (Fcgi.Parser.returns_paramsSwitch octet q').mono fun r named fits => named.logFits ((logFits_passed_iff r).mp fits)

theorem realizes_parseStdin (sound : S.Sound) (fuel : 4 ≤ S.fuel) (octet : UInt8) (here : Represents known owned p q) :
    (layout S).Realizes known owned (p.parseStdin S octet) (q.parseStdin octet) Any Represents := by
  have pass : ∀ known owned p q, Represents known owned p q → (layout S).Realizes known owned (p.stdinSwitch S octet) (q.stdinSwitch octet)
      (Fitting Any Any) Passed := fun known owned p q here => (realizes_stdinSwitch sound octet here).of_any
  exact Realizes.whileLoop (fun _ => (Prog.returns_any _).mono fun _ _ _ => trivial) pass fuel here

/-- What became of an octet. -/
def Ruled (known : Set Object) (owned : List Object) : Verdict Parser → Verdict Fcgi.Parser → Prop
  | .advance p, .advance q => Represents known owned p q
  | .finish p, .finish q => Represents known owned p q
  | .stop p, .stop q => Represents known owned p q
  | _, _ => False

theorem ruled_lookahead (here : Represents known owned p q) : Ruled known owned p.lookahead q.lookahead := by
  have settled : p.Settled ↔ q.Settled := by rw [Parser.Settled, Fcgi.Parser.Settled, here.state]
  unfold Parser.lookahead Fcgi.Parser.lookahead
  by_cases ended : q.Settled
  · rw [if_pos ended, if_pos (settled.mpr ended)]
    exact here
  · rw [if_neg ended, if_neg (mt settled.mp ended)]
    exact here

theorem realizes_parseOctet (sound : S.Sound) (fuel : 4 ≤ S.fuel) (octet : UInt8) (here : Represents known owned p q) :
    (layout S).Realizes known owned (p.parseOctet S octet) (q.parseOctet octet) (fun v => (Fcgi.Parser.behind v).LogFits) Ruled := by
  have params : (layout S).Realizes known owned (p.parseParams S octet >>= fun p => pure p.lookahead)
      (q.parseParams octet >>= fun q => pure q.lookahead) (fun v => (Fcgi.Parser.behind v).LogFits) Ruled := by
    apply (realizes_parseParams sound fuel octet here).bindFit
    · exact fun r => Prog.returns_pure fun fits => (Fcgi.Parser.named_lookahead (List.Subset.refl _)).logFits fits
    · exact fun _ _ p' q' _ here' => .pure (ruled_lookahead here')
  have stdin : (layout S).Realizes known owned (p.parseStdin S octet >>= fun p => pure p.lookahead)
      (q.parseStdin octet >>= fun q => pure q.lookahead) (fun v => (Fcgi.Parser.behind v).LogFits) Ruled := by
    apply (realizes_parseStdin sound fuel octet here).bind
    exact fun _ _ p' q' _ here' => .pure (ruled_lookahead here')
  have begin' := represents_parseBeginRequest octet here
  obtain ⟨small, first, last, data, rfl, lies⟩ := here
  have low := octet.toNat_lt
  obtain ⟨state, readCounter, messageSize, header, beginMessage, all, stdinStream⟩ := q
  cases state with
  | contentLengthB1 =>
    refine .pure ⟨⟨?_, small.2⟩, first, last, data, rfl, lies⟩
    dsimp only
    rw [Nat.shiftLeft_eq]
    omega
  | contentLengthB0 => exact .pure ⟨⟨Nat.or_lt_two_pow small.1 (by omega), small.2⟩, first, last, data, rfl, lies⟩
  | paddingReserved =>
    change (layout S).Realizes known owned (if header.contentLength = 0 then _ else _) (if header.contentLength = 0 then _ else _) _ _
    by_cases empty : header.contentLength = 0
    · rw [if_pos empty, if_pos empty]
      exact .pure ⟨small, first, last, data, rfl, lies⟩
    · rw [if_neg empty, if_neg empty]
      exact .pure ⟨small, first, last, data, rfl, lies⟩
  | version | type | requestIdB1 | requestIdB0 | paddingLength | error | finished => exact .pure ⟨small, first, last, data, rfl, lies⟩
  | stdinData | stdinPadding => exact stdin
  | beginRoleB1 | beginRoleB0 | beginFlags | beginSkip5 | beginSkip4 | beginSkip3 | beginSkip2 | beginSkip1 => exact .pure begin'
  | _ => exact params

theorem realizes_parse (sound : S.Sound) (fuel : 4 ≤ S.fuel) : ∀ (octets : List UInt8) {known owned p q}, Represents known owned p q →
    (layout S).Realizes known owned (p.parse S octets) (q.parse octets) (fun r => r.1.LogFits) fun known' owned' r r' =>
      Represents known' owned' r.1 r'.1 ∧ r.2 = r'.2
  | [], known, owned, p, q, here => .pure ⟨here, rfl⟩
  | octet :: octets, known, owned, p, q, here => by
    unfold Parser.parse Fcgi.Parser.parse
    rw [consume_cons]
    apply (realizes_parseOctet sound fuel octet here).bindFit
    · intro v
      cases v with
      | advance q' =>
        refine (Fcgi.Parser.returns_parse octets q').bind fun r named => Prog.returns_pure fun fits => ?_
        exact named.logFits fits
      | finish q' => exact Prog.returns_pure id
      | stop q' => exact Prog.returns_pure id
    · intro known' owned' v v' _ ruled
      cases v with
      | advance p' =>
        cases v' with
        | advance q' =>
          apply (realizes_parse sound fuel octets ruled).bindFit
          · exact fun r => Prog.returns_pure id
          · rintro _ _ r r' - ⟨represents, count⟩
            exact .pure ⟨represents, congrArg (· + 1) count⟩
        | _ => exact ruled.elim
      | finish p' =>
        cases v' with
        | finish q' => exact .pure ⟨ruled, rfl⟩
        | _ => exact ruled.elim
      | stop p' =>
        cases v' with
        | stop q' => exact .pure ⟨ruled, rfl⟩
        | _ => exact ruled.elim

/-! ## A record -/

variable {w : World}

theorem laid_empty (good : Good S (fun _ => none) w) : Laid S ∅ [] w := by
  have nothing : ∀ {o : Object} {P : Prop}, o ∈ (∅ : Set Object) ∨ o ∈ ([] : List Object) → P := by
    rintro o P (inside | inside)
    · exact absurd inside (Set.notMem_empty o)
    · exact absurd inside List.not_mem_nil
  exact ⟨good, fun o here => nothing here, fun o here => nothing here, .nil, fun o here => absurd here List.not_mem_nil⟩

theorem represents_init : Represents ∅ [] {} .init :=
  ⟨⟨by decide, by decide⟩, 0, 0, 0, rfl, [], [], rfl, .none, .null⟩

/-- The parameters of a parser in memory: the first and the last one, and all objects that they consist of. -/
inductive ListAt : Nat → Nat → List MsgParam → List Object → Prop
  | none : ListAt 0 0 [] []
  | some {first last : Nat} {pointers : Half → Nat} {params : List MsgParam} {param : MsgParam} {others objects : List Object}
      (front : Chain first params last others) (here : ParamAt last 0 pointers param objects) :
      ListAt first last (params ++ [param]) (others ++ objects)

/-- Nothing is linked to the last one. -/
theorem ListAt.chain (h : ListAt first last params objects) : Chain first params 0 objects := by
  cases h with
  | none => exact .nil 0
  | some front here => exact front.snoc here

/-- **The objects of a parser**: its parameters with their names and values, and the data of the input. -/
def Stored (objects : List Object) (p : Parser) (q : Fcgi.Parser) : Prop :=
  ∃ first last data params stdin, p = inMemory q first last data ∧ objects = params ++ stdin ∧ ListAt first last q.params params ∧
    DataAt data q.stdinStream.data stdin

/-- What a world holds of a parser are objects that lie apart, the known ones from each other too. -/
theorem Represents.stored (h : Represents known owned p q) (laid : Laid S known owned w) :
    ∃ objects, Stored objects p q ∧ Apart objects ∧ ∀ o ∈ objects, o.Placed S w ∧ o.In w.memory := by
  obtain ⟨-, first, last, data, rfl, front, back, rfl, params, stdin⟩ := h
  have held : ∀ o, o ∈ known ∨ o ∈ front ++ back → o.Placed S w ∧ o.In w.memory := fun o there => ⟨laid.placed o there, laid.there o there⟩
  generalize same : q.params = all at params
  cases params with
  | none =>
    refine ⟨back, ⟨0, 0, data, [], back, rfl, rfl, ?_, stdin⟩, laid.apart, fun o there => held o (Or.inr there)⟩
    rw [same]
    exact .none
  | @some _ _ _ params param others _ chain old apart here =>
    refine ⟨others ++ front ++ back, ⟨first, last, data, others ++ front, back, rfl, rfl, ?_, stdin⟩, ?_, fun o there => ?_⟩
    · rw [same]
      exact .some chain here
    · have laid' : Laid S known (front ++ back ++ [] ++ []) w := by
        rwa [List.append_nil, List.append_nil]
      have all := laid'.apart_append old apart
      rwa [← List.append_assoc] at all
    · rw [List.append_assoc] at there
      exact held o ((List.mem_append.mp there).imp (old o) id)

/-- From whatever is in memory. -/
theorem realized_from_init (sound : S.Sound) (fuel : 4 ≤ S.fuel) (good : Good S (fun _ => none) w) {octets : List UInt8} {q : Fcgi.Parser}
    {n : Nat} {r : Resources} (run : (Fcgi.Parser.init.parse octets : Prog (arenaPlatform S) _) w.resources = .ok ((q, n), r))
    (fits : q.LogFits) :
    ∃ p w' objects, Parser.parse S {} octets w = (.ok (p, n), w') ∧ w'.resources = r ∧ Stored objects p q ∧ Apart objects ∧
      ∀ o ∈ objects, o.Placed S w' ∧ o.In w'.memory := by
  have laid : Laid S ∅ ([] ++ []) w := laid_empty good
  obtain ⟨⟨p, n'⟩, w', known, owned, step, same, -, laid', here, count⟩ :=
    realizes_parse sound fuel octets represents_init w [] (q, n) r laid run fits
  obtain rfl : n' = n := count
  rw [List.append_nil] at laid'
  obtain ⟨objects, stored, apart, held⟩ := here.stored laid'
  exact ⟨p, w', objects, step, same, stored, apart, held⟩

/-- **The parser in memory stands for the parser by value.** On every stream of octets the parser by value
returns, with the arena to ask for memory. If none of the name lengths that have come is 48, the parser in memory
returns too, from whatever is in memory: it has consumed as much and asked for the same memory, and its
fields, the records that are linked from it and their data are those of the other one, each in a region of its own. -/
theorem parser_refined (sound : S.Sound) (fuel : 4 ≤ S.fuel) (good : Good S (fun _ => none) w) (octets : List UInt8) :
    ∃ q n r, (Fcgi.Parser.init.parse octets : Prog (arenaPlatform S) _) w.resources = .ok ((q, n), r) ∧
      (q.LogFits → ∃ p w' objects, Parser.parse S {} octets w = (.ok (p, n), w') ∧ w'.resources = r ∧ Stored objects p q ∧
        Apart objects ∧ ∀ o ∈ objects, o.Placed S w' ∧ o.In w'.memory) := by
  obtain ⟨⟨q, n⟩, r, run, -⟩ := Fcgi.ensures_parse (P := arenaPlatform S) octets w.resources
  exact ⟨q, n, r, run, realized_from_init sound fuel good run⟩

/-- Behind `sl_net_init_connection`, in memory that an earlier client has left. -/
def restarted : World := (initConnection fresh (leftover 255 100)).2

theorem good_restarted : Good onePlace (fun _ => none) restarted := by
  obtain ⟨arena, started, good⟩ := (recycled_leftover 255 (by decide : 100 ≤ arenaPreallocate)).init fresh
  rw [restarted, started]
  exact good

/-- A record with the parameters `A`, whose value is `B`, and `CD`, whose value is empty, and an octet behind it. -/
theorem parser_refined_two_parameters :
    ∃ q n r, (Fcgi.Parser.init.parse [1, 4, 0, 1, 0, 8, 0, 0, 1, 1, 65, 66, 2, 0, 67, 68, 1] : Prog (arenaPlatform onePlace) _)
        restarted.resources = .ok ((q, n), r) ∧
      ∃ p w' objects, Parser.parse onePlace {} [1, 4, 0, 1, 0, 8, 0, 0, 1, 1, 65, 66, 2, 0, 67, 68, 1] restarted = (.ok (p, n), w') ∧
        w'.resources = r ∧ Stored objects p q ∧ Apart objects ∧ ∀ o ∈ objects, o.Placed onePlace w' ∧ o.In w'.memory := by
  obtain ⟨q, n, r, run, refined⟩ := parser_refined sound_onePlace (by decide) good_restarted
    [1, 4, 0, 1, 0, 8, 0, 0, 1, 1, 65, 66, 2, 0, 67, 68, 1]
  have names : ((Fcgi.Parser.init.parse [1, 4, 0, 1, 0, 8, 0, 0, 1, 1, 65, 66, 2, 0, 67, 68, 1] : Prog (arenaPlatform onePlace) _)
      restarted.resources).toOption.map (fun r => r.1.1.nameLengths) = some [1, 2] := by
    decide +kernel
  rw [run] at names
  refine ⟨q, n, r, run, refined ?_⟩
  have two : q.nameLengths = [1, 2] := Option.some.inj names
  rw [Fcgi.Parser.LogFits, two]
  decide

end Cpptrw.Leftover
