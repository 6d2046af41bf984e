import Cpptrw.Leftover.Objects
import Cpptrw.Text.Capacity

/-!
# Strings in memory stand for strings

A string in the arena is its three fields and its buffer. `StandsFor` relates
them to a string by value, and each function of `sl_string.c` in memory realizes
the one on values, as long as the result has room for its octets. For a format
that is the case exactly if no literal comes when the string is full.
-/

namespace Cpptrw.Leftover

open Lib Lib.Layout Arena
open Text hiding SlString
open Text.Sharing (SlString)

variable {S : Setting} {known : Set Object} {owned rest objects : List Object} {pointer size : Nat} {octets : List UInt8}
  {s : SlString} {v : Text.SlString}

/-- What comes first can come last. -/
theorem behind (owned more : List Object) : (more ++ owned).Perm (owned ++ more) := List.perm_append_comm

/-- The fields of a string in memory. -/
def stringFields (s : SlString) : List (List UInt8) := [toOctets 8 s.allocated, toOctets 8 s.length, toOctets 8 s.buffer]

/-- **What a string in memory stands for**, and the object that its octets are in, if it has one. -/
inductive StandsFor (s : SlString) (v : Text.SlString) : List Object → Prop
  | empty (none : s.allocated = 0 ∧ s.length = 0) (same : v.allocated = 0 ∧ v.octets = []) (pointer : s.buffer < 2 ^ 64) : StandsFor s v []
  | buffer {tail : Buffer} (allocated : s.allocated = v.allocated) (length : s.length = v.octets.length)
      (room : v.octets.length + tail.length = v.allocated) (small : v.allocated < 2 ^ 64) (pointer : s.buffer < 2 ^ 64) :
      StandsFor s v [⟨s.buffer, v.octets.map some ++ tail⟩]

/-- A string at an address. -/
def StringAt (pointer : Nat) (v : Text.SlString) (objects : List Object) : Prop :=
  ∃ s part, objects = ⟨pointer, record (stringFields s)⟩ :: part ∧ StandsFor s v part

/-- Octets that can be loaded. -/
structure Sources (S : Setting) (known : Set Object) (owned : List Object) (source : Source) (octets : List UInt8) : Prop where
  length : source.length = octets.length
  looks : (layout S).Looks known owned (source.load S) octets

theorem Sources.literal (octets : List UInt8) : Sources S known owned (.literal octets) octets := ⟨rfl, .pure⟩

namespace StandsFor

theorem allocated (h : StandsFor s v objects) : s.allocated = v.allocated := by
  cases h with
  | empty none same => rw [none.1, same.1]
  | buffer allocated => exact allocated

theorem length (h : StandsFor s v objects) : s.length = v.octets.length := by
  cases h with
  | empty none same => rw [none.2, same.2, List.length_nil]
  | buffer _ length => exact length

theorem room (h : StandsFor s v objects) : v.octets.length ≤ v.allocated ∧ v.allocated < 2 ^ 64 := by
  cases h with
  | empty _ same => simp [same]
  | buffer _ _ room small => omega

/-- The fields are words. -/
theorem small (h : StandsFor s v objects) : s.allocated < 2 ^ 64 ∧ s.length < 2 ^ 64 ∧ s.buffer < 2 ^ 64 := by
  have fits := h.room
  rw [h.allocated, h.length]
  refine ⟨fits.2, by omega, ?_⟩
  cases h with
  | empty _ _ pointer => exact pointer
  | buffer _ _ _ _ pointer => exact pointer

/-- The octets of a string. -/
theorem looks (h : StandsFor s v objects) : (layout S).Looks known objects (load S s.buffer 0 s.length) v.octets := by
  cases h with
  | empty none same =>
    rw [none.2, same.2]
    exact fun _ _ _ => rfl
  | buffer _ length => exact looks_front (Or.inr List.mem_cons_self) length.symm

end StandsFor

/-- The fields of a string that is there. -/
theorem looks_loadString {part : List Object} (here : (⟨pointer, record (stringFields s)⟩ : Object) ∈ known ∨
      (⟨pointer, record (stringFields s)⟩ : Object) ∈ owned) (stands : StandsFor s v part) :
    (layout S).Looks known owned (loadString S pointer) s := by
  obtain ⟨allocated, length, buffer⟩ := stands.small
  refine (looks_load64 (i := 0) here rfl rfl rfl allocated).bind ?_
  refine (looks_load64 (i := 1) here rfl rfl (by simp [offsetOf, stringFields]) length).bind ?_
  refine (looks_load64 (i := 2) here rfl rfl (by simp [offsetOf, stringFields]) buffer).bind ?_
  exact .pure

/-- The fields of a string are stored, at the place of others or in a new region. -/
theorem updates_storeString {contents : Buffer} (length : contents.length = 24) (s : SlString) :
    (layout S).Updates known [⟨pointer, contents⟩] (storeString S pointer s) [⟨pointer, record (stringFields s)⟩] :=
  @updates_whole (words [s.allocated, s.length, s.buffer]) S known pointer contents length

theorem length_stringFields (s : SlString) : (record (stringFields s)).length = 24 := by simp [length_record, stringFields]

/-! ## Creation -/

/-- What a function that returns a string, or `NULL`, leaves beside `rest`. -/
def Created (known : Set Object) (rest : List Object) (known' : Set Object) (owned' : List Object) (pointer : Nat) :
    Option Text.SlString → Prop
  | none => known' = known ∧ owned' = rest ∧ pointer = 0
  | some v => known' = known ∧ pointer ≠ 0 ∧ pointer < 2 ^ 64 ∧ ∃ objects, owned' = objects ++ rest ∧ StringAt pointer v objects

theorem realizes_createFromBuffer (sound : S.Sound) {source : Source} (sources : Sources S known owned source octets) {preallocate : Nat}
    (room : octets.length ≤ createdSize octets.length preallocate) :
    (layout S).Realizes known owned (createFromBuffer S source preallocate) (Text.SlString.createFromBuffer octets preallocate) Any
      (Created known owned) := by
  unfold createFromBuffer Text.SlString.createFromBuffer
  apply (realizes_allocate sound (Or.inl (by decide))).bind
  rintro _ _ string _ - ⟨rfl, ⟨rfl, rfl, rfl⟩ | ⟨rfl, valid, small, rfl⟩⟩
  · exact .pure ⟨rfl, rfl, rfl⟩
  rw [if_neg valid, if_pos rfl, sources.length]
  apply (realizes_allocate sound (requestable_pow2Size _)).bind
  rintro _ _ buffer _ - ⟨rfl, ⟨rfl, rfl, rfl⟩ | ⟨rfl, valid', small', rfl⟩⟩
  · exact Realizes.of_leads (.pure ⟨rfl, rfl, rfl⟩) (.drop owned [_] (List.perm_append_singleton _ _).symm)
  rw [if_neg valid', if_pos rfl]
  apply Realizes.look (sources.looks.weaken subset_rfl (behind owned [_, _]))
  have whole : (octets ++ List.replicate (createdSize octets.length preallocate - octets.length) 0).length =
      createdSize octets.length preallocate := by
    rw [List.length_append, List.length_replicate]
    omega
  have cap : createdSize octets.length preallocate < 2 ^ 64 := Nat.lt_of_le_of_lt (pow2Size_le _) (by decide)
  apply Realizes.update ((updates_whole ?_).part (.refl _))
  apply Realizes.update ((updates_storeString ?_ ⟨_, octets.length, buffer⟩).part (.swap ..))
  · refine .pure ⟨rfl, valid, small, [_, _], rfl, ⟨_, octets.length, buffer⟩, _, rfl, ?_⟩
    rw [List.map_append]
    exact .buffer rfl rfl (by rw [List.length_map, ← List.length_append, whole]; rfl) cap small'
  · simp [Buffer.fresh, sizeofString]
  · rw [whole, Buffer.fresh, List.length_replicate]
    rfl

/-! ## Appending -/

/-- Octets are stored behind those of a string that has room for them. -/
theorem StandsFor.updates_behind (stands : StandsFor s v objects) (fits : v.octets.length + octets.length ≤ v.allocated) :
    ∃ objects', (layout S).Updates known objects (store S s.buffer s.length octets) objects' ∧
      StandsFor { s with length := s.length + octets.length } { v with octets := v.octets ++ octets } objects' := by
  cases stands with
  | empty none same pointer =>
    have nothing : octets = [] := by
      rw [same.1, same.2] at fits
      exact List.eq_nil_of_length_eq_zero (by simpa using fits)
    subst nothing
    exact ⟨[], updates_nil _ _, .empty none ⟨same.1, by rw [same.2, List.append_nil]⟩ pointer⟩
  | @buffer tail allocated length room small pointer =>
    have front : s.length = (v.octets.map some).length := length.trans (List.length_map ..).symm
    refine ⟨_, Leftover.updates_behind front (by omega), ?_⟩
    rw [← List.append_assoc, ← List.map_append]
    refine .buffer allocated ?_ ?_ small pointer
    · rw [List.length_append, ← length]
    · rw [List.length_append, List.length_drop]
      dsimp only
      omega

/-- What an append to a string leaves of it beside `rest`. -/
def Appended (v : Text.SlString) (known : Set Object) (rest : List Object) (related : Text.SlString → List Object → Prop)
    (known' : Set Object) (owned' : List Object) (appended : Bool) (result : Option Text.SlString) : Prop :=
  known' = known ∧ appended = result.isSome ∧ ∃ objects, owned' = objects ++ rest ∧ related (result.getD v) objects

/-- The result of an append has room for its octets. -/
def Roomy (result : Option Text.SlString) : Prop := ∀ v, result = some v → v.octets.length ≤ v.allocated

theorem realizes_appendWithBuffer (sound : S.Sound) (stands : StandsFor s v objects) {source : Source}
    (sources : Sources S known rest source octets) :
    (layout S).Realizes known (objects ++ rest) (appendWithBuffer S s source) (v.appendWithBuffer octets) Roomy
      fun known' owned' result result' => known' = known ∧ ∃ objects', owned' = objects' ++ rest ∧ match result, result' with
        | some s', some v' => StandsFor s' v' objects'
        | none, none => objects' = objects
        | _, _ => False := by
  have reads : ∀ more : List Object, (layout S).Looks known (more ++ (objects ++ rest)) (source.load S) octets := by
    intro more
    refine sources.looks.weaken subset_rfl (?_ : List.Perm _ (rest ++ (more ++ objects)))
    rw [← List.append_assoc]
    exact behind _ _
  unfold appendWithBuffer Text.SlString.appendWithBuffer Text.SlString.length
  rw [sources.length, stands.length, stands.allocated]
  split
  · rename_i fits
    apply Realizes.look (reads [])
    obtain ⟨objects', update, more⟩ := stands.updates_behind fits
    rw [stands.length] at update
    rw [stands.length, stands.allocated] at more
    apply Realizes.update (update.part (.refl _))
    exact .pure ⟨rfl, objects', rfl, more⟩
  · apply (realizes_allocate sound (requestable_pow2Size _)).bind
    rintro _ _ buffer _ - ⟨rfl, ⟨rfl, rfl, rfl⟩ | ⟨rfl, valid, small, rfl⟩⟩
    · exact .pure ⟨rfl, objects, rfl, rfl⟩
    rw [if_neg valid, if_pos rfl]
    apply Realizes.assumeFit
    intro roomy
    have room : (v.octets ++ octets).length ≤ Text.SlString.grownSize (v.octets.length + octets.length) := roomy _ rfl
    have whole : (v.octets ++ octets ++ List.replicate (Text.SlString.grownSize (v.octets.length + octets.length) - v.octets.length -
        octets.length) 0).length = Text.SlString.grownSize (v.octets.length + octets.length) := by
      rw [List.length_append, List.length_replicate]
      rw [List.length_append] at room ⊢
      omega
    apply Realizes.look (y := v.octets)
    · rw [← stands.length]
      exact stands.looks.weaken subset_rfl List.perm_middle.symm
    apply Realizes.look (reads [_])
    apply Realizes.update ((updates_whole ?_).part (.refl _))
    · -- the old buffer is given up
      refine Realizes.of_leads ?_ (.drop (_ :: rest) objects (by exact (behind rest objects).cons _))
      refine .pure ⟨rfl, [_], rfl, ?_⟩
      rw [List.map_append]
      refine .buffer rfl List.length_append.symm ?_ (Nat.lt_of_le_of_lt (pow2Size_le _) (by decide)) small
      rw [List.length_map, ← List.length_append, whole]
    · rw [whole, Buffer.fresh, List.length_replicate]
      rfl

/-- An append to a string at an address. -/
theorem realizes_appendTo (sound : S.Sound) (here : StringAt pointer v objects) {source : Source}
    (sources : Sources S known rest source octets) :
    (layout S).Realizes known (objects ++ rest) (appendTo S pointer source) (v.appendWithBuffer octets) Roomy
      (Appended v known rest (StringAt pointer)) := by
  obtain ⟨s, part, rfl, stands⟩ := here
  unfold appendTo
  rw [← bind_pure (v.appendWithBuffer octets)]
  apply Realizes.look (looks_loadString (Or.inr List.mem_cons_self) stands)
  have reads : Sources S known (⟨pointer, record (stringFields s)⟩ :: rest) source octets :=
    ⟨sources.length, sources.looks.weaken subset_rfl (behind rest [_])⟩
  apply ((realizes_appendWithBuffer sound stands reads).of_leads (.of_perm List.perm_middle.symm)).bindFit
  · exact fun _ => Prog.returns_pure id
  rintro _ _ result result' - ⟨rfl, part', rfl, related⟩
  cases result with
  | none =>
    cases result' with
    | none =>
      refine Realizes.of_leads (.pure ⟨rfl, rfl, _, rfl, s, part, rfl, stands⟩) (.of_perm ?_)
      subst related
      exact List.perm_middle
    | some v' => exact related.elim
  | some s' =>
    cases result' with
    | none => exact related.elim
    | some v' =>
      dsimp only at related ⊢
      refine Realizes.update ((updates_storeString (length_stringFields s) s').part (List.perm_middle : (part' ++ _ :: rest).Perm _)) ?_
      exact .pure ⟨rfl, rfl, _, rfl, s', part', rfl, related⟩

/-- One more octet, for which there is room. -/
theorem updates_push (here : StringAt pointer v objects) (room : v.octets.length < v.allocated) (octet : UInt8) :
    ∃ objects', StringAt pointer (v.push octet) objects' ∧ (layout S).Updates known objects (push S pointer octet) objects' := by
  obtain ⟨s, part, rfl, stands⟩ := here
  obtain ⟨part', stored, more⟩ : ∃ part', (layout S).Updates known part (store S s.buffer s.length [octet]) part' ∧
      StandsFor { s with length := s.length + 1 } (v.push octet) part' := stands.updates_behind room
  refine ⟨_, ⟨_, part', rfl, more⟩, ?_⟩
  apply Updates.look (looks_loadString (Or.inr List.mem_cons_self) stands)
  apply Updates.bind (stored.part (behind part [_]))
  exact (updates_storeString (length_stringFields s) _).part (behind [_] part')

/-! ## Formatting -/

/-- What an argument in memory stands for. -/
inductive ArgumentAt (S : Setting) (known : Set Object) (owned : List Object) : Argument → Text.Argument → Prop
  | number (value : UInt64) : ArgumentAt S known owned (.number value) (.number value)
  | cstring (value : Option CString) : ArgumentAt S known owned (.cstring value) (.cstring value)
  | string {s : SlString} {octets : List UInt8} (sources : Sources S known owned (.ofString s) octets) :
      ArgumentAt S known owned (.string s) (.string (some octets))
  | null : ArgumentAt S known owned (.pointer 0) (.string none)
  | pointer {a : Nat} {s : SlString} {octets : List UInt8} (valid : a ≠ 0) (fields : (layout S).Looks known owned (loadString S a) s)
      (sources : Sources S known owned (.ofString s) octets) : ArgumentAt S known owned (.pointer a) (.string (some octets))

/-- The arguments of a call. -/
abbrev ArgumentsAt (S : Setting) (known : Set Object) (owned : List Object) : List Argument → List Text.Argument → Prop :=
  List.Forall₂ (ArgumentAt S known owned)

/-- Behind a directive: the arguments left in memory, and the local state of the formatting. -/
def Directed (S : Setting) (pointer : Nat) (known : Set Object) (rest : List Object) (known' : Set Object) (owned' : List Object)
    (left : Option (List Argument)) (result : Option Text.Formatting) : Prop :=
  known' = known ∧ ∃ objects, owned' = objects ++ rest ∧ match left, result with
    | some arguments, some g => StringAt pointer g.string objects ∧ ArgumentsAt S known rest arguments g.arguments
    | none, none => True
    | _, _ => False

/-- There is room for what is put in the place of a directive. -/
def RoomyState (result : Option Text.Formatting) : Prop := ∀ g, result = some g → g.string.octets.length ≤ g.string.allocated

variable {g : Text.Formatting} {arguments : List Argument}

theorem realizes_appendArgument (sound : S.Sound) (here : StringAt pointer v objects) {source : Source}
    (sources : Sources S known rest source octets) (left : List UInt8) (length : Nat) {others : List Text.Argument}
    (those : ArgumentsAt S known rest arguments others) :
    (layout S).Realizes known (objects ++ rest) (appendArgument S pointer source arguments)
      (v.appendWithBuffer octets >>= fun string => pure (string.map fun string => ⟨left, length, others, string⟩)) RoomyState
      (Directed S pointer known rest) := by
  unfold appendArgument
  apply (realizes_appendTo sound here sources).bindFit
  · intro result
    refine Prog.returns_pure fun roomy v same => ?_
    subst same
    exact roomy _ rfl
  · rintro _ _ appended result - ⟨rfl, rfl, objects', rfl, related⟩
    cases result with
    | none => exact .pure ⟨rfl, objects', rfl, trivial⟩
    | some v => exact .pure ⟨rfl, objects', rfl, related, those⟩

theorem realizes_formatDirective (sound : S.Sound) (here : StringAt pointer g.string objects)
    (those : ArgumentsAt S known rest arguments g.arguments) (octet : UInt8) :
    (layout S).Realizes known (objects ++ rest) (formatDirective S pointer octet arguments) (Text.formatDirective octet g) RoomyState
      (Directed S pointer known rest) := by
  obtain ⟨left, length, others, string⟩ := g
  dsimp only at here those
  have skip : ∀ {arguments' : List Argument} {others' : List Text.Argument}, ArgumentsAt S known rest arguments' others' →
      (layout S).Realizes known (objects ++ rest) (Pure.pure (some arguments'))
        (Pure.pure (some (⟨left, length, others', string⟩ : Text.Formatting))) RoomyState (Directed S pointer known rest) :=
    fun those => .pure ⟨rfl, objects, rfl, here, those⟩
  unfold formatDirective Text.formatDirective
  dsimp only
  split
  · cases those with
    | nil => exact .fault _
    | cons first others =>
      cases first with
      | number value =>
        apply (Realizes.lift _).bind
        rintro _ _ ⟨argLength, buffer⟩ _ - ⟨rfl, rfl, rfl⟩
        apply (Realizes.lift _).bind
        rintro _ _ digits _ - ⟨rfl, rfl, rfl⟩
        exact realizes_appendArgument sound here (.literal _) left length others
      | _ => exact .fault _
  · split
    · cases those with
      | nil => exact .fault _
      | cons first others =>
        cases first with
        | cstring value =>
          cases value with
          | none => exact skip others
          | some value => exact realizes_appendArgument sound here (.literal _) left length others
        | _ => exact .fault _
    · split
      · cases those with
        | nil => exact .fault _
        | cons first others =>
          cases first with
          | string sources => exact realizes_appendArgument sound here sources left length others
          | null => exact skip others
          | pointer valid fields sources =>
            dsimp only
            rw [if_neg valid]
            exact Realizes.look (fields.weaken subset_rfl (behind rest objects)) (realizes_appendArgument sound here sources left length others)
          | _ => exact .fault _
      · exact skip those

/-- Between two passes. -/
def Formatted (S : Setting) (pointer : Nat) (known : Set Object) (rest : List Object) (known' : Set Object) (owned' : List Object)
    (f : Formatting) (g : Text.Formatting) : Prop :=
  known' = known ∧ ∃ objects, owned' = objects ++ rest ∧ StringAt pointer g.string objects ∧
    ArgumentsAt S known rest f.arguments g.arguments ∧ f.format = g.format ∧ f.length = g.length ∧ SafeState g

/-- Behind the loop. -/
def Complete (pointer : Nat) (known : Set Object) (rest : List Object) (known' : Set Object) (owned' : List Object) (complete : Bool)
    (result : Option Text.SlString) : Prop :=
  known' = known ∧ complete = result.isSome ∧ ∃ objects, owned' = objects ++ rest ∧ ∀ v, result = some v → StringAt pointer v objects

theorem realizes_formatPass (sound : S.Sound) {f : Formatting} (here : Formatted S pointer known rest known owned f g) :
    (layout S).Realizes known owned (formatPass S pointer f) (formatIteration g) Any
      (Layout.Pass (Formatted S pointer known rest) (Complete pointer known rest)) := by
  obtain ⟨-, objects, rfl, there, those, format, length, safe⟩ := here
  have capacity := safe.capacitySafe
  -- the state is safe behind the pass too
  have values : Prog.Returns (formatIteration g : Prog (arenaPlatform S) _) fun r => ∀ g', r = .next g' → SafeState g' := by
    intro s r t run g' same
    subst same
    exact safe.pass run
  refine Realizes.of_returns ?_ values
  clear values
  obtain ⟨left, n, arguments⟩ := f
  obtain ⟨_, _, others, v⟩ := g
  dsimp only at there those format length
  subst format length
  unfold formatPass formatIteration
  dsimp only
  split
  · refine .pure ⟨rfl, rfl, objects, rfl, fun v same => ?_⟩
    cases same
    exact there
  rename_i more
  cases left with
  | nil => exact .fault _
  | cons octet left =>
    dsimp only
    split
    · rename_i plain
      obtain ⟨objects', pushed, update⟩ := updates_push there (capacity.2 ⟨more, octet, left, rfl, plain⟩) octet
      apply Realizes.update (update.part (.refl _))
      apply Realizes.assumeFit
      intro next
      exact .pure ⟨rfl, objects', rfl, pushed, those, rfl, rfl, next _ rfl⟩
    cases left with
    | nil => exact .fault _
    | cons directive left =>
      apply (realizes_formatDirective sound there those directive).bindFit
      · intro result
        cases result with
        | none => exact Prog.returns_pure fun _ _ same => nomatch same
        | some g' =>
          refine Prog.returns_pure fun next g'' same => ?_
          cases same
          exact (next _ rfl).capacitySafe.1
      · rintro _ _ arguments' result - ⟨rfl, objects', rfl, related⟩
        cases arguments' with
        | none =>
          cases result with
          | none => exact .pure ⟨rfl, rfl, objects', rfl, nofun⟩
          | some g' => exact related.elim
        | some arguments' =>
          cases result with
          | none => exact related.elim
          | some g' =>
            apply Realizes.assumeFit
            intro next
            exact .pure ⟨rfl, objects', rfl, related.1, related.2, rfl, rfl, next _ rfl⟩

/-- **Formatting.** No literal comes when the string is full. -/
theorem realizes_format (sound : S.Sound) {fmt : CString} {others : List Text.Argument} {ps : List Piece}
    (matching : Matching fmt.octets others ps) (safe : SafeFrom ⟨SlString.grownSize fmt.octets.length, []⟩ ps)
    (those : ArgumentsAt S known owned arguments others) :
    (layout S).Realizes known owned (format S fmt arguments) (Text.format fmt others) Any (Created known owned) := by
  unfold format Text.format Text.formatBuffer
  have entered : Prog.Returns (SlString.createFromBuffer [] (wrap64 (fmt.octets.length <<< 1)) : Prog (arenaPlatform S) _)
      fun created => ∀ v, created = some v → SafeState ⟨fmt.memory, fmt.octets.length, others, v⟩ := by
    intro s created t run v same
    subst same
    exact ⟨_, _, _, _, enter_before run others, matching, safe⟩
  apply ((realizes_createFromBuffer sound (.literal []) (Nat.zero_le _)).and_returns entered).bind
  rintro known' _ string created - ⟨related, state⟩
  cases created with
  | none =>
    obtain ⟨rfl, rfl, null⟩ := related
    rw [if_pos null]
    exact .pure ⟨rfl, rfl, rfl⟩
  | some v =>
    obtain ⟨rfl, valid, small, objects, rfl, there⟩ := related
    dsimp only
    rw [if_neg valid, ← bind_pure (Prog.whileLoop _ _ _)]
    have pass : ∀ known owned' f g, Formatted S string known' owned known owned' f g → (layout S).Realizes known owned'
        (formatPass S string f) (formatIteration g) (Fitting Any Any) (Layout.Pass (Formatted S string known' owned) (Complete string known' owned)) := by
      intro known owned' f g here
      obtain rfl := here.1
      exact (realizes_formatPass sound here).of_any
    apply Realizes.bind
    · exact Realizes.whileLoop (fun _ => (Prog.returns_any _).mono fun _ _ _ => trivial) pass (Nat.le_refl _)
        ⟨rfl, objects, rfl, there, those, rfl, rfl, state v rfl⟩
    · rintro _ _ complete result - ⟨rfl, rfl, objects', rfl, related⟩
      cases result with
      | none => exact Realizes.of_leads (.pure ⟨rfl, rfl, rfl⟩) (.drop _ objects' (behind owned objects'))
      | some v => exact .pure ⟨rfl, valid, small, objects', rfl, related v rfl⟩

/-- **Logging.** What is formatted is left behind in the arena. -/
theorem realizes_logWriteFormat (sound : S.Sound) {fmt : CString} {others : List Text.Argument} {ps : List Piece}
    (matching : Matching fmt.octets others ps) (safe : SafeFrom ⟨SlString.grownSize fmt.octets.length, []⟩ ps)
    (those : ArgumentsAt S known owned arguments others) :
    (layout S).Realizes known owned (logWriteFormat S fmt arguments) (Fcgi.logWriteFormat fmt others) Any
      fun known' owned' _ _ => known' = known ∧ owned' = owned := by
  unfold logWriteFormat Fcgi.logWriteFormat
  apply (realizes_format sound matching safe those).bind
  rintro _ _ message result - related
  cases result with
  | none =>
    obtain ⟨rfl, rfl, null⟩ := related
    rw [if_pos null]
    exact .pure ⟨rfl, rfl⟩
  | some v =>
    obtain ⟨rfl, valid, -, objects, rfl, s, part, rfl, stands⟩ := related
    rw [if_neg valid]
    apply Realizes.look (looks_loadString (Or.inr List.mem_cons_self) stands)
    exact Realizes.of_leads (.pure ⟨rfl, rfl⟩) (.drop _ (_ :: part) (behind owned (_ :: part)))

end Cpptrw.Leftover
