import Cpptrw.Leftover.Keeps
import Cpptrw.Text.Format
import Cpptrw.Text.Sharing

/-!
# Strings in the arena (`sl_string.c`, `sl_log.c`)

The functions of the source on strings that are in memory. Octets come from
memory, or from a buffer or a literal that is no part of it. What is copied to a
new buffer and the zeros behind it are stored at once, and so are the fields of
a new string. A length is the size of something in memory and does not wrap.
-/

namespace Cpptrw.Leftover

open Lib Arena
open Text hiding SlString
open Text.Sharing (SlString)

/-- Where octets are copied from. -/
inductive Source
  | memory (pointer length : Nat)
  | literal (octets : List UInt8)

namespace Source

def length : Source → Nat
  | memory _ length => length
  | literal octets => octets.length

def load (S : Setting) : Source → Code (List UInt8)
  | memory pointer length => Leftover.load S pointer 0 length
  | literal octets => pure octets

/-- The octets were written. -/
def Ok (w : World) : Source → Prop
  | memory pointer length => Filled w pointer length
  | literal _ => True

end Source

/-- The fields of a string. -/
def loadString (S : Setting) (pointer : Nat) : Code SlString := do
  let allocated ← load64 S pointer 0
  let length ← load64 S pointer 8
  let buffer ← load64 S pointer 16
  pure ⟨allocated, length, buffer⟩

def storeString (S : Setting) (pointer : Nat) (string : SlString) : Code Unit :=
  storeWords S pointer [string.allocated, string.length, string.buffer]

/-- `(sl_string) {0}`. -/
def emptyString : SlString := ⟨0, 0, 0⟩

/-- The capacity of a new string. -/
def createdSize (length preallocate : Nat) : Nat := pow2Size (if length ≤ preallocate then preallocate else wrap64 (length <<< 1))

/-- `sl_string_create_from_buffer`. -/
def createFromBuffer (S : Setting) (source : Source) (preallocate : Nat) : Code Nat := do
  let string ← allocate S .string sizeofString
  if string = 0 then pure 0
  else
    let size := createdSize source.length preallocate
    let buffer ← allocate S .characters size
    if buffer = 0 then pure 0
    else
      let octets ← source.load S
      store S buffer 0 (octets ++ List.replicate (size - source.length) 0)
      storeString S string ⟨size, source.length, buffer⟩
      pure string

/-- `sl_string_append_with_buffer`; `none` is the return value `-1`. -/
def appendWithBuffer (S : Setting) (string : SlString) (source : Source) : Code (Option SlString) :=
  if string.length + source.length ≤ string.allocated then do
    let octets ← source.load S
    store S string.buffer string.length octets
    pure (some { string with length := string.length + source.length })
  else do
    let size := Text.SlString.grownSize (string.length + source.length)
    let buffer ← allocate S .characters size
    if buffer = 0 then pure none
    else
      let octets ← load S string.buffer 0 string.length
      let octets' ← source.load S
      store S buffer 0 (octets ++ octets' ++ List.replicate (size - string.length - source.length) 0)
      pure (some ⟨size, string.length + source.length, buffer⟩)

/-- The same on a string in memory; `false` is the return value `-1`. -/
def appendTo (S : Setting) (pointer : Nat) (source : Source) : Code Bool := do
  let string ← loadString S pointer
  match ← appendWithBuffer S string source with
  | none => pure false
  | some string =>
    storeString S pointer string
    pure true

/-- The octets of a string in memory. -/
def Source.ofString (string : SlString) : Source := .memory string.buffer string.length

/-- `string->buffer[string->length++] = octet`. -/
def push (S : Setting) (pointer : Nat) (octet : UInt8) : Code Unit := do
  let string ← loadString S pointer
  store S string.buffer string.length [octet]
  storeString S pointer { string with length := string.length + 1 }

/-! ## Formatting -/

/-- An argument of a variadic call: a string is a local of the caller, or in memory. -/
inductive Argument
  | number (value : UInt64)
  | cstring (value : Option CString)
  | string (value : SlString)
  | pointer (string : Nat)

/-- The local state of `sl_string_format_buffer`. -/
structure Formatting where
  format : List UInt8
  length : Nat
  arguments : List Argument

/-- An argument is appended; `none` is a refused append. -/
def appendArgument (S : Setting) (pointer : Nat) (source : Source) (arguments : List Argument) : Code (Option (List Argument)) := do
  let appended ← appendTo S pointer source
  pure (if appended then some arguments else none)

/-- The `switch` over the character behind a `%`, and the arguments left. -/
def formatDirective (S : Setting) (pointer : Nat) (octet : UInt8) (arguments : List Argument) : Code (Option (List Argument)) :=
  if octet = code 'z' then
    match arguments with
    | .number value :: arguments => do
      let (argLength, buffer) ← Machine.lift (itoa value.toNat (Buffer.fresh 20) 20)
      let digits ← Machine.lift (buffer.read argLength)
      appendArgument S pointer (.literal digits) arguments
    | _ => Machine.fault .argument
  else if octet = code 's' then
    match arguments with
    | .cstring none :: arguments => pure (some arguments)
    | .cstring (some argument) :: arguments => appendArgument S pointer (.literal argument.octets) arguments
    | _ => Machine.fault .argument
  else if octet = code 'S' then
    match arguments with
    | .string argument :: arguments => appendArgument S pointer (.ofString argument) arguments
    | .pointer argument :: arguments =>
      if argument = 0 then pure (some arguments)
      else do
        let argument ← loadString S argument
        appendArgument S pointer (.ofString argument) arguments
    | _ => Machine.fault .argument
  else pure (some arguments)

/-- One pass through `while (length-- > 0)`. -/
def formatPass (S : Setting) (pointer : Nat) (f : Formatting) : Code (Prog.Flow Formatting Bool) :=
  if f.length = 0 then pure (.done true)
  else
    match f.format with
    | [] => Machine.fault .outOfBounds
    | octet :: format =>
      if octet ≠ percent then do
        push S pointer octet
        pure (.next { f with format, length := f.length - 1 })
      else
        match format with
        | [] => Machine.fault .outOfBounds
        | directive :: format => formatDirective S pointer directive f.arguments >>= fun
          | none => pure (.done false)
          | some arguments => pure (.next { format, length := sub64 (f.length - 1) 1, arguments })

/-- `sl_string_format`, which is `sl_string_format_buffer` on all of the format. -/
def format (S : Setting) (format : CString) (arguments : List Argument) : Code Nat := do
  let string ← createFromBuffer S (.literal []) (wrap64 (format.octets.length <<< 1))
  if string = 0 then pure 0
  else
    let complete ← Machine.whileLoop (formatPass S string) (format.memory.length + 1) ⟨format.memory, format.octets.length, arguments⟩
    pure (if complete then string else 0)

/-- `sl_log_write_format`, up to the call of `sl_log_write_buffer`. -/
def logWriteFormat (S : Setting) (fmt : CString) (arguments : List Argument) : Code Unit := do
  let message ← format S fmt arguments
  if message = 0 then pure ()
  else
    let _ ← loadString S message
    pure ()

/-! ## What they keep -/

variable {S : Setting} {Γ Γ' : Typing} {w w' : World} {pointer size : Nat}

theorem requestable_pow2Size (size : Nat) : Requestable (pow2Size size) := by
  rcases pow2Size_cases size with zero | ⟨k, le, pow⟩
  · rw [zero]
    exact Or.inl (Nat.zero_le _)
  · rw [pow]
    rcases Nat.lt_or_ge k 63 with small | large
    · exact Or.inl (Nat.pow_le_pow_right (by decide) (by omega))
    · rw [show k = 63 by omega]
      exact Or.inr rfl

/-- An argument that can be read. -/
def Argument.Ok (Γ : Typing) (w : World) : Argument → Prop
  | .number _ => True
  | .cstring _ => True
  | .string value => Filled w value.buffer value.length
  | .pointer address => OrNull Γ.IsString address

theorem Source.Ok.later {source : Source} (h : source.Ok w) (later : Later Γ w Γ' w') : source.Ok w' := by
  cases source with
  | memory pointer length => exact later.filled h
  | literal octets => trivial

theorem Source.Ok.reads {source : Source} (h : source.Ok w) : Reads w (source.load S) fun octets => octets.length = source.length := by
  cases source with
  | memory pointer length => exact .octets h
  | literal octets => exact .pure rfl

/-- The fields of a string that is a structure. -/
theorem reads_loadString (good : Good S Γ w) (here : Γ.IsString pointer) :
    Reads w (loadString S pointer) fun string =>
      StringOk Γ w string.allocated string.length string.buffer ∧ string.buffer = w.word (pointer + 16) := by
  obtain ⟨filled, ok⟩ := good.holds pointer _ here
  have fields : ∀ offset, offset + 8 ≤ 24 → Reads w (load64 S pointer offset) fun value => value = w.word (pointer + offset) :=
    fun offset less => .load64 (filled.part less)
  apply (fields 0 (by decide)).bind
  rintro allocated rfl
  apply (fields 8 (by decide)).bind
  rintro length rfl
  apply (fields 16 (by decide)).bind
  rintro buffer rfl
  exact .pure ⟨ok, rfl⟩

/-- The fields of a string that was stored. -/
theorem holds_storeString {string : SlString} (ok : StringOk Γ w string.allocated string.length string.buffer) (leads : Γ.Leads Γ') :
    Kind.string.Holds Γ' (w.put pointer (words [string.allocated, string.length, string.buffer])) pointer ∧
      (w.put pointer (words [string.allocated, string.length, string.buffer])).word (pointer + 16) = string.buffer := by
  have fields := fun i => @World.word_put_words w pointer [string.allocated, string.length, string.buffer] i
  have allocated := fields 0 (by decide : 0 < 3)
  have length := fields 1 (by decide : 1 < 3)
  have buffer := fields 2 (by decide : 2 < 3)
  simp only [List.getElem_cons_zero, List.getElem_cons_succ, Nat.mul_zero, Nat.add_zero] at allocated length buffer
  rw [Nat.mod_eq_of_lt ok.small] at buffer
  refine ⟨⟨filled_put w pointer _, ?_⟩, buffer⟩
  rw [allocated, length, buffer]
  refine ⟨ok.small, (ok.filled.front (Nat.mod_le _ _)).put, ?_⟩
  rcases ok.room with none | chars
  · exact Or.inl (by rw [none]; rfl)
  · exact Or.inr (leads.chars chars)

namespace Keeps

/-- A raw region becomes the buffer of a string. -/
theorem newBuffer (good : Good S Γ w) (raw : Raw S Γ w pointer size) (octets : List UInt8) :
    Keeps S Γ w (store S pointer 0 octets) fun _ Γ' w' => Filled w' pointer octets.length ∧ (octets ≠ [] → Γ'.IsChars pointer) ∧
      ∀ other n, other ≠ pointer → Raw S Γ w other n → Raw S Γ' w' other n := by
  by_cases empty : octets = []
  · subst empty
    apply runs_store
    · intro _
      refine ⟨Γ, good, .refl Γ w, fun address low high => ?_, fun some => absurd rfl some, fun _ _ _ => id⟩
      rw [List.length_nil] at high
      omega
    · intro some
      exact absurd rfl some
  · have positive : 0 < octets.length := List.length_pos_iff.mpr empty
    apply (construct good raw (k := .chars octets.length) positive (Nat.le_refl _) (by simp) trivial).mono
    rintro _ _ _ later ⟨rfl, rfl⟩
    refine ⟨filled_put w pointer octets, fun _ => ⟨octets.length, Typing.set_self ..⟩, fun other n different raw' => ?_⟩
    exact (raw'.put pointer octets).set different _

/-- A raw region becomes a string. -/
theorem newString (good : Good S Γ w) (raw : Raw S Γ w pointer 24) {string : SlString}
    (ok : StringOk Γ w string.allocated string.length string.buffer) :
    Keeps S Γ w (storeString S pointer string) fun _ Γ' w' => Γ'.IsString pointer ∧ w'.word (pointer + 16) = string.buffer ∧
      ∀ other n, other ≠ pointer → Raw S Γ w other n → Raw S Γ' w' other n := by
  obtain ⟨holds, buffer⟩ := @holds_storeString Γ _ w pointer string ok (.set raw.untyped .string)
  apply (construct good raw (k := .string) (by decide) (length_words _ ▸ Nat.le_refl _) (by simp) holds).mono
  rintro _ _ _ later ⟨rfl, rfl⟩
  exact ⟨Typing.set_self .., buffer, fun other n different raw' => (raw'.put pointer _).set different _⟩

/-- The fields of a string are replaced. -/
theorem setString (good : Good S Γ w) (here : Γ.IsString pointer) {string : SlString}
    (ok : StringOk Γ w string.allocated string.length string.buffer) :
    Keeps S Γ w (storeString S pointer string) fun _ Γ' w' => Γ' = Γ ∧ w'.word (pointer + 16) = string.buffer := by
  obtain ⟨holds, buffer⟩ := @holds_storeString Γ _ w pointer string ok (.refl Γ)
  unfold storeString storeWords
  apply runs_store
  · intro empty
    exact absurd (congrArg List.length empty) (by simp)
  · intro _ _ bounds
    refine ⟨Γ, good.put bounds fun k there => ?_, (Later.refl Γ w).put _ _, rfl, buffer⟩
    cases Option.some.inj (here.symm.trans there)
    exact holds

theorem createFromBuffer (sound : S.Sound) (good : Good S Γ w) {source : Source} (ok : source.Ok w) (preallocate : Nat) :
    Keeps S Γ w (createFromBuffer S source preallocate) fun string Γ' w' => string = 0 ∨
      Γ'.IsString string ∧ (0 < createdSize source.length preallocate → Γ'.IsChars (w'.word (string + 16))) := by
  unfold Leftover.createFromBuffer
  apply (allocate sound good (Or.inl (by decide))).bind
  rintro string _ w₁ good₁ later₁ ⟨rfl, null | ⟨raw, -⟩⟩
  · rw [if_pos null]
    exact .pure good₁ (Or.inl rfl)
  rw [if_neg raw.valid]
  apply (allocate sound good₁ (requestable_pow2Size _)).bind
  rintro buffer _ w₂ good₂ later₂ ⟨rfl, null | ⟨raw', stays⟩⟩
  · rw [if_pos null]
    exact .pure good₂ (Or.inl rfl)
  rw [if_neg raw'.valid]
  obtain ⟨raw, different⟩ := stays string _ (by decide) raw
  apply Leaves.read ((ok.later later₁).later later₂).reads
  intro octets length
  apply (newBuffer good₂ raw' _).bind
  rintro _ Γ₃ w₃ good₃ later₃ ⟨filled, chars, raws⟩
  rw [List.length_append, List.length_replicate, length] at filled
  have room : 0 < createdSize source.length preallocate → Γ₃.IsChars buffer := by
    intro positive
    apply chars
    intro empty
    have := congrArg List.length empty
    rw [List.length_append, List.length_replicate, length, List.length_nil] at this
    omega
  have made : StringOk Γ₃ w₃ (createdSize source.length preallocate) source.length buffer :=
    ⟨raw'.small, filled.front (Nat.le_add_right _ _), (Nat.eq_zero_or_pos _).imp id room⟩
  apply (@newString S Γ₃ w₃ string good₃ (raws string _ different raw) ⟨_, _, _⟩ made).bind
  rintro _ Γ₄ w₄ good₄ later₄ ⟨here, same, -⟩
  refine .pure good₄ (Or.inr ⟨here, fun positive => ?_⟩)
  rw [same]
  exact later₄.leads.chars (room positive)

/-- An append keeps a string, and its room. -/
theorem appendWithBuffer (sound : S.Sound) (good : Good S Γ w) {string : SlString}
    (fine : StringOk Γ w string.allocated string.length string.buffer) {source : Source} (ok : source.Ok w) :
    Keeps S Γ w (appendWithBuffer S string source) fun result Γ' w' => ∀ string', result = some string' →
      StringOk Γ' w' string'.allocated string'.length string'.buffer ∧ (Γ.IsChars string.buffer → Γ'.IsChars string'.buffer) := by
  unfold Leftover.appendWithBuffer
  split
  · rename_i fits
    apply Leaves.read ok.reads
    intro octets length
    apply (fill good fun some => ?_).bind
    · rintro _ _ w₁ good₁ later₁ ⟨rfl, filled⟩
      refine .pure good₁ fun string' same => ?_
      cases same
      refine ⟨⟨fine.small, ?_, fine.room⟩, id⟩
      exact (later₁.filled fine.filled).append (length ▸ filled)
    · have := List.length_pos_iff.mpr some
      exact fine.room.resolve_left (by omega)
  · apply (allocate sound good (requestable_pow2Size _)).bind
    rintro buffer _ w₁ good₁ later₁ ⟨rfl, null | ⟨raw, -⟩⟩
    · rw [if_pos null]
      exact .pure good₁ fun string' same => by cases same
    rw [if_neg raw.valid]
    apply Leaves.read (Reads.octets (later₁.filled fine.filled))
    intro octets length
    apply Leaves.read (ok.later later₁).reads
    intro octets' length'
    apply (newBuffer good₁ raw _).bind
    rintro _ Γ₂ w₂ good₂ later₂ ⟨filled, chars, -⟩
    refine .pure good₂ fun string' same => ?_
    cases same
    have long : (octets ++ octets').length = string.length + source.length := by
      rw [List.length_append, length, length']
    rw [List.length_append, long] at filled
    have room : Γ₂.IsChars buffer := by
      apply chars
      intro empty
      have := congrArg List.length empty
      rw [List.length_append, long, List.length_nil] at this
      omega
    exact ⟨⟨raw.small, filled.front (Nat.le_add_right _ _), Or.inr room⟩, fun _ => room⟩

/-- An append to a string in memory. -/
theorem appendTo (sound : S.Sound) (good : Good S Γ w) (here : Γ.IsString pointer) {source : Source} (ok : source.Ok w) :
    Keeps S Γ w (appendTo S pointer source) fun appended Γ' w' => appended = true → Γ.IsChars (w.word (pointer + 16)) →
      Γ'.IsChars (w'.word (pointer + 16)) := by
  unfold Leftover.appendTo
  apply Leaves.read (reads_loadString good here)
  rintro string ⟨fine, same⟩
  apply (appendWithBuffer sound good fine ok).bind
  intro result Γ₁ w₁ good₁ later₁ appended
  cases result with
  | none => exact .pure good₁ fun failed => absurd failed (by decide)
  | some string' =>
    obtain ⟨fine', room⟩ := appended string' rfl
    apply (setString good₁ (later₁.leads.string here) fine').bind
    rintro _ _ w₂ good₂ later₂ ⟨rfl, same'⟩
    refine .pure good₂ fun _ chars => ?_
    rw [same']
    exact room (same ▸ chars)

/-- A push to a string that has a buffer. -/
theorem push (good : Good S Γ w) (here : Γ.IsString pointer) (chars : Γ.IsChars (w.word (pointer + 16))) (octet : UInt8) :
    Keeps S Γ w (push S pointer octet) fun _ Γ' w' => Γ'.IsChars (w'.word (pointer + 16)) := by
  unfold Leftover.push
  apply Leaves.read (reads_loadString good here)
  rintro string ⟨fine, same⟩
  rw [← same] at chars
  apply (fill good fun _ => chars).bind
  rintro _ Γ₁ w₁ good₁ later₁ ⟨rfl, filled⟩
  have more : StringOk Γ₁ w₁ string.allocated (string.length + 1) string.buffer :=
    ⟨fine.small, (later₁.filled fine.filled).append filled, fine.room⟩
  apply (@setString S Γ₁ w₁ pointer good₁ here ⟨_, _, _⟩ more).mono
  rintro _ _ w₂ later₂ ⟨rfl, same'⟩
  rw [same']
  exact chars

end Keeps

/-- The arguments of a call can be read. -/
def Readable (Γ : Typing) (w : World) (arguments : List Argument) : Prop := ∀ argument ∈ arguments, argument.Ok Γ w

theorem Readable.later {arguments : List Argument} (h : Readable Γ w arguments) (later : Later Γ w Γ' w') : Readable Γ' w' arguments := by
  intro argument there
  have ok := h argument there
  cases argument with
  | number value => trivial
  | cstring value => trivial
  | string value => exact later.filled ok
  | pointer string => exact OrNull.mono ok later.leads.string

theorem Readable.tail {argument : Argument} {arguments : List Argument} (h : Readable Γ w (argument :: arguments)) :
    Readable Γ w arguments := fun other there => h other (List.mem_cons_of_mem _ there)

/-- The message that is being formatted, and the arguments left for it. -/
structure Underway (pointer : Nat) (arguments : List Argument) (Γ : Typing) (w : World) : Prop where
  string : Γ.IsString pointer
  room : Γ.IsChars (w.word (pointer + 16))
  readable : Readable Γ w arguments

namespace Keeps

theorem appendArgument (sound : S.Sound) (good : Good S Γ w) {arguments : List Argument} (underway : Underway pointer arguments Γ w)
    {source : Source} (ok : source.Ok w) :
    Keeps S Γ w (appendArgument S pointer source arguments) fun result Γ' w' => ∀ arguments', result = some arguments' →
      Underway pointer arguments' Γ' w' := by
  unfold Leftover.appendArgument
  apply (appendTo sound good underway.string ok).bind
  intro appended Γ₁ w₁ good₁ later₁ room
  refine .pure good₁ fun arguments' same => ?_
  cases appended with
  | false => cases same
  | true =>
    cases same
    exact ⟨later₁.leads.string underway.string, room rfl underway.room, underway.readable.later later₁⟩

theorem formatDirective (sound : S.Sound) (good : Good S Γ w) {arguments : List Argument} (underway : Underway pointer arguments Γ w)
    (octet : UInt8) :
    Keeps S Γ w (formatDirective S pointer octet arguments) fun result Γ' w' => ∀ arguments', result = some arguments' →
      Underway pointer arguments' Γ' w' := by
  have skip : ∀ {argument : Argument} {rest : List Argument}, arguments = argument :: rest → Underway pointer rest Γ w := by
    rintro argument rest rfl
    exact ⟨underway.string, underway.room, underway.readable.tail⟩
  have skipped : ∀ {rest : List Argument}, Underway pointer rest Γ w → Keeps S Γ w (Pure.pure (some rest)) fun result Γ' w' =>
      ∀ arguments', result = some arguments' → Underway pointer arguments' Γ' w' := by
    intro rest here
    refine .pure good fun arguments' same => ?_
    cases same
    exact here
  unfold Leftover.formatDirective
  split
  · split
    · apply Leaves.read (Reads.lift _)
      rintro ⟨argLength, buffer⟩ -
      apply Leaves.read (Reads.lift _)
      intro digits _
      exact appendArgument sound good (skip rfl) trivial
    · exact .fault _
  · split
    · split
      · exact skipped (skip rfl)
      · exact appendArgument sound good (skip rfl) trivial
      · exact .fault _
    · split
      · split
        · exact appendArgument sound good (skip rfl) (underway.readable _ List.mem_cons_self)
        · rename_i argument rest
          split
          · exact skipped (skip rfl)
          · rename_i valid
            have here := (underway.readable _ List.mem_cons_self).resolve_left valid
            apply Leaves.read (reads_loadString good here)
            rintro string ⟨fine, -⟩
            exact appendArgument sound good (skip rfl) fine.filled
        · exact .fault _
      · exact skipped underway

theorem formatPass (sound : S.Sound) (f : Formatting) (Γ : Typing) (w : World) (good : Good S Γ w)
    (underway : Underway pointer f.arguments Γ w) :
    Keeps S Γ w (formatPass S pointer f) (Pass (fun f => Underway pointer f.arguments) fun _ Γ _ => Γ.IsString pointer) := by
  unfold Leftover.formatPass
  split
  · exact .pure good underway.string
  · split
    · exact .fault _
    · split
      · apply (push good underway.string underway.room _).bind
        intro _ Γ₁ w₁ good₁ later₁ room
        exact .pure good₁ ⟨later₁.leads.string underway.string, room, underway.readable.later later₁⟩
      · split
        · exact .fault _
        · apply (formatDirective sound good underway _).bind
          intro result Γ₁ w₁ good₁ later₁ next
          cases result with
          | none => exact .pure good₁ (later₁.leads.string underway.string)
          | some arguments => exact .pure good₁ (next arguments rfl)

/-- **Formatting** yields a string, or `NULL`, if there is room for the first octets of the format. -/
theorem format (sound : S.Sound) (good : Good S Γ w) {fmt : CString} (room : 0 < createdSize 0 (wrap64 (fmt.octets.length <<< 1)))
    {arguments : List Argument} (readable : Readable Γ w arguments) :
    Keeps S Γ w (format S fmt arguments) fun message Γ' _ => OrNull Γ'.IsString message := by
  unfold Leftover.format
  apply (@createFromBuffer S Γ w sound good (.literal []) trivial _).bind
  rintro string Γ₁ w₁ good₁ later₁ (null | ⟨here, chars⟩)
  · rw [if_pos null]
    exact .pure good₁ (Or.inl rfl)
  rw [if_neg (good₁.pointer sound.frame here).1]
  have start : Underway string arguments Γ₁ w₁ := ⟨here, chars room, readable.later later₁⟩
  apply (Leaves.whileLoop (formatPass sound) (fmt.memory.length + 1) ⟨fmt.memory, fmt.octets.length, arguments⟩ Γ₁ w₁ good₁ start).bind
  intro complete Γ₂ w₂ good₂ _ there
  refine .pure good₂ ?_
  cases complete with
  | false => exact Or.inl rfl
  | true => exact Or.inr there

theorem logWriteFormat (sound : S.Sound) (good : Good S Γ w) {fmt : CString} (room : 0 < createdSize 0 (wrap64 (fmt.octets.length <<< 1)))
    {arguments : List Argument} (readable : Readable Γ w arguments) :
    Keeps S Γ w (logWriteFormat S fmt arguments) fun _ _ _ => True := by
  unfold Leftover.logWriteFormat
  apply (format sound good room readable).bind
  intro message Γ₁ w₁ good₁ later₁ made
  split
  · exact .pure good₁ trivial
  · rename_i valid
    apply Leaves.read (reads_loadString good₁ (made.resolve_left valid))
    intro _ _
    exact .pure good₁ trivial

end Keeps

end Cpptrw.Leftover
