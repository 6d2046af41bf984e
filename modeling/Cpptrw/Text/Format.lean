import Cpptrw.Text.Itoa
import Cpptrw.Text.Str

/-!
# Formatting (`sl_string_format_buffer`)

The loop of the source works with a pointer into the format and a separate
count of the octets that are left; here the pointer is the memory from it on,
terminator included, so that a read behind the terminator is a fault. The
argument list is consumed by the directives, and a directive whose argument
has another type, or is missing, is a fault as it is for `va_arg`.

`pieces` is the reference reading of a format with its arguments: literal
octets, and what a directive is replaced by. `ensures_format` says that
formatting expands the pieces, for every format in which each `%` is followed
by a character.
-/

namespace Cpptrw.Text

open Lib Arena

/-- A C string: octets without the terminator, followed by one in memory. -/
structure CString where
  octets : List UInt8
  terminated : (0 : UInt8) ∉ octets

/-- The memory a C string occupies. -/
def CString.memory (s : CString) : List UInt8 := s.octets ++ [0]

/-- An argument of a variadic call. A string argument is read only, so its
octets stand for it. -/
inductive Argument where
  | number (value : UInt64)
  | cstring (value : Option CString)
  | string (value : Option (List UInt8))

/-- The local state of `sl_string_format_buffer`. -/
structure Formatting where
  format : List UInt8
  length : Nat
  arguments : List Argument
  string : SlString

def percent : UInt8 := code '%'

/-- The `switch` over the character behind a `%`; `none` is a refused append. -/
def formatDirective {P : Platform} (octet : UInt8) (f : Formatting) : Prog P (Option Formatting) :=
  if octet = code 'z' then
    match f.arguments with
    | .number value :: arguments => do
      let (argLength, buffer) ← Prog.lift (itoa value.toNat (Buffer.fresh 20) 20)
      let digits ← Prog.lift (buffer.read argLength)
      let string ← f.string.appendWithBuffer digits
      pure (string.map fun string => { f with arguments, string })
    | _ => Prog.fault .argument
  else if octet = code 's' then
    match f.arguments with
    | .cstring none :: arguments => pure (some { f with arguments })
    | .cstring (some argument) :: arguments => do
      let string ← f.string.appendWithBuffer argument.octets
      pure (string.map fun string => { f with arguments, string })
    | _ => Prog.fault .argument
  else if octet = code 'S' then
    match f.arguments with
    | .string none :: arguments => pure (some { f with arguments })
    | .string (some argument) :: arguments => do
      let string ← f.string.appendWithBuffer argument
      pure (string.map fun string => { f with arguments, string })
    | _ => Prog.fault .argument
  else pure (some f)

/-- One pass through `while (length-- > 0)`. -/
def formatIteration {P : Platform} (f : Formatting) : Prog P (Prog.Flow Formatting (Option SlString)) :=
  if f.length = 0 then pure (.done (some f.string))
  else
    match f.format with
    | [] => Prog.fault .outOfBounds
    | octet :: format =>
      if octet ≠ percent then
        pure (.next { f with format, length := f.length - 1, string := f.string.push octet })
      else
        match format with
        | [] => Prog.fault .outOfBounds
        | directive :: format => formatDirective directive f >>= fun
          | none => pure (.done none)
          | some f' => pure (.next { f' with format, length := sub64 (f.length - 1) 1 })

/-- `sl_string_format_buffer`. A pass reads at least one octet of the format,
so there are at most as many passes as octets to read, and one more to leave. -/
def formatBuffer {P : Platform} (format : List UInt8) (length : Nat) (arguments : List Argument) :
    Prog P (Option SlString) :=
  SlString.createFromBuffer [] (wrap64 (length <<< 1)) >>= fun
  | none => pure none
  | some string => Prog.whileLoop formatIteration (format.length + 1) { format, length, arguments, string }

/-- `sl_string_format`. -/
def format {P : Platform} (format : CString) (arguments : List Argument) : Prog P (Option SlString) :=
  formatBuffer format.memory format.octets.length arguments

/-! ## The reference reading -/

inductive Piece where
  | literal (octet : UInt8)
  | argument (octets : List UInt8)

namespace Piece

def octets : Piece → List UInt8
  | .literal octet => [octet]
  | .argument octets => octets

/-- A literal is stored without a test, an argument is appended. -/
def onto (s : SlString) : Piece → SlString
  | .literal octet => s.push octet
  | .argument octets => s.appended octets

end Piece

/-- What a directive is replaced by: `none` without a matching argument, and
otherwise the piece, if the directive is known, and the arguments left. -/
def directivePiece (octet : UInt8) (arguments : List Argument) : Option (Option Piece × List Argument) :=
  if octet = code 'z' then
    match arguments with
    | .number value :: arguments => some (some (.argument (decimal value.toNat)), arguments)
    | _ => none
  else if octet = code 's' then
    match arguments with
    | .cstring value :: arguments => some (value.map fun s => .argument s.octets, arguments)
    | _ => none
  else if octet = code 'S' then
    match arguments with
    | .string value :: arguments => some (value.map .argument, arguments)
    | _ => none
  else some (none, arguments)

/-- The pieces of a format with its arguments: `none` if an argument is missing
or of the wrong type, or if a `%` ends the format. -/
def pieces : List UInt8 → List Argument → Option (List Piece)
  | [], _ => some []
  | octet :: format, arguments =>
    if octet ≠ percent then (pieces format arguments).map (.literal octet :: ·)
    else
      match format with
      | [] => none
      | directive :: format =>
        match directivePiece directive arguments with
        | none => none
        | some (piece, arguments) => (pieces format arguments).map (piece.toList ++ ·)

/-- A run of literals. -/
def literals (run : List UInt8) : List Piece := run.map .literal

theorem pieces_literals {run : List UInt8} (plain : percent ∉ run) (rest : List UInt8) (arguments : List Argument) :
    pieces (run ++ rest) arguments = (pieces rest arguments).map (literals run ++ ·) := by
  induction run with
  | nil => simp [literals]
  | cons octet run ih =>
    have here : octet ≠ percent := fun e => plain (by simp [e])
    have tail : percent ∉ run := fun h => plain (List.mem_cons_of_mem _ h)
    rw [List.cons_append, pieces.eq_def]
    dsimp only
    rw [if_pos here, ih tail, Option.map_map]
    rfl

theorem pieces_number (value : UInt64) (rest : List UInt8) (arguments : List Argument) :
    pieces (percent :: code 'z' :: rest) (.number value :: arguments) =
      (pieces rest arguments).map (.argument (decimal value.toNat) :: ·) := by
  rw [pieces.eq_def]
  simp [directivePiece]

theorem pieces_string (octets : List UInt8) (rest : List UInt8) (arguments : List Argument) :
    pieces (percent :: code 'S' :: rest) (.string (some octets) :: arguments) =
      (pieces rest arguments).map (.argument octets :: ·) := by
  rw [pieces.eq_def]
  simp [directivePiece, show code 'S' ≠ code 'z' by decide, show code 'S' ≠ code 's' by decide]

/-- A format, its arguments and the pieces they make. -/
structure Matching (format : List UInt8) (arguments : List Argument) (ps : List Piece) : Prop where
  pieces : pieces format arguments = some ps
  short : format.length < 2 ^ 64

variable {P : Platform}

/-- A directive puts its piece onto the string, or an append is refused. -/
theorem ensures_directive {octet : UInt8} {f : Formatting} {piece : Option Piece} {arguments : List Argument}
    (h : directivePiece octet f.arguments = some (piece, arguments)) :
    Prog.Ensures (formatDirective octet f : Prog P _) fun
      | some f' => f' = { f with arguments, string := piece.toList.foldl Piece.onto f.string }
      | none => ¬P.Succeeds := by
  have append : ∀ (octets : List UInt8) (rest : List Argument),
      Prog.Ensures ((f.string.appendWithBuffer octets : Prog P _) >>= fun string =>
          pure (string.map fun string => { f with arguments := rest, string })) fun
        | some f' => f' = { f with arguments := rest, string := f.string.appended octets }
        | none => ¬P.Succeeds := by
    intro octets rest
    refine (SlString.ensures_appendWithBuffer f.string octets).bind fun r hr => .pure ?_
    cases r with
    | none => exact hr
    | some s => rw [hr]; rfl
  unfold directivePiece at h
  unfold formatDirective
  split at h
  · rename_i z
    rw [if_pos z]
    split at h
    · rename_i value rest eq
      cases h
      have fits : (decimal value.toNat).length ≤ 20 := length_decimal_le value.toNat_lt
      obtain ⟨buffer, run, -, digits⟩ := itoa_spec fits (by decide)
      simp only [run, Prog.lift_ok, pure_bind, digits]
      exact append _ _
    · cases h
  · rename_i z
    rw [if_neg z]
    split at h
    · rename_i s
      rw [if_pos s]
      split at h
      · rename_i value rest eq
        cases h
        rw [eq]
        cases value with
        | none => exact .pure rfl
        | some argument => exact append _ _
      · cases h
    · rename_i s
      rw [if_neg s]
      split at h
      · rename_i S
        rw [if_pos S]
        split at h
        · rename_i value rest eq
          cases h
          rw [eq]
          cases value with
          | none => exact .pure rfl
          | some argument => exact append _ _
        · cases h
      · rename_i S
        rw [if_neg S]
        cases h
        exact .pure rfl

/-- The loop state with `rest` of the format left. -/
def Formatting.before (rest : List UInt8) (arguments : List Argument) (string : SlString) : Formatting :=
  ⟨rest ++ [0], rest.length, arguments, string⟩

/-- The three ways a format can begin. -/
inductive Front (rest : List UInt8) (arguments : List Argument) (ps : List Piece) : Prop where
  | stop (format : rest = []) (pieces : ps = [])
  | literal {octet : UInt8} {rest' : List UInt8} {ps' : List Piece} (plain : octet ≠ percent)
      (format : rest = octet :: rest') (pieces : ps = .literal octet :: ps') (tail : Matching rest' arguments ps')
  | directive {octet : UInt8} {rest' : List UInt8} {piece : Option Piece} {arguments' : List Argument} {ps' : List Piece}
      (format : rest = percent :: octet :: rest') (found : directivePiece octet arguments = some (piece, arguments'))
      (pieces : ps = piece.toList ++ ps') (tail : Matching rest' arguments' ps')

theorem Matching.front {rest : List UInt8} {arguments : List Argument} {ps : List Piece} (h : Matching rest arguments ps) :
    Front rest arguments ps := by
  obtain ⟨reading, short⟩ := h
  rw [pieces.eq_def] at reading
  cases rest with
  | nil => exact .stop rfl (by simpa using reading.symm)
  | cons octet rest =>
    simp only [List.length_cons] at short
    dsimp only at reading
    by_cases plain : octet ≠ percent
    · rw [if_pos plain] at reading
      obtain ⟨ps', tail, rfl⟩ := Option.map_eq_some_iff.mp reading
      exact .literal plain rfl rfl ⟨tail, by omega⟩
    · rw [if_neg plain] at reading
      cases rest with
      | nil => cases reading
      | cons directive rest =>
        simp only [List.length_cons] at short
        dsimp only at reading
        split at reading
        · cases reading
        · rename_i piece left found
          obtain ⟨ps', tail, rfl⟩ := Option.map_eq_some_iff.mp reading
          exact .directive (by rw [not_not.mp plain]) found rfl ⟨tail, by omega⟩

theorem iteration_literal {octet : UInt8} (plain : octet ≠ percent) (rest : List UInt8) (arguments : List Argument)
    (s : SlString) :
    (formatIteration (.before (octet :: rest) arguments s) : Prog P _) = pure (.next (.before rest arguments (s.push octet))) := by
  rw [formatIteration, if_neg (by simp [Formatting.before])]
  simp only [Formatting.before, List.cons_append]
  rw [if_pos plain]
  rfl

theorem ensures_iteration_directive {octet : UInt8} {rest : List UInt8} {piece : Option Piece}
    {arguments arguments' : List Argument} (found : directivePiece octet arguments = some (piece, arguments'))
    (short : (percent :: octet :: rest).length < 2 ^ 64) (s : SlString) :
    Prog.Ensures (formatIteration (.before (percent :: octet :: rest) arguments s) : Prog P _) fun r =>
      r = .done none ∧ ¬P.Succeeds ∨
        r = .next (.before rest arguments' (piece.toList.foldl Piece.onto s)) := by
  simp only [List.length_cons] at short
  rw [formatIteration, if_neg (by simp [Formatting.before])]
  simp only [Formatting.before, List.cons_append, List.length_cons]
  rw [if_neg (by simp)]
  refine (ensures_directive (f := ⟨_, _, arguments, s⟩) found).bind fun r hr => ?_
  cases r with
  | none => exact .pure (Or.inl ⟨rfl, hr⟩)
  | some f =>
    subst hr
    refine .pure (Or.inr ?_)
    rw [sub64_of_le (by omega) (by omega)]
    rfl

/-- One pass: the loop ends with the format, or takes a literal, or a directive. -/
theorem ensures_iteration {rest : List UInt8} {arguments : List Argument} {ps : List Piece}
    (h : Matching rest arguments ps) (s : SlString) :
    Prog.Ensures (formatIteration (.before rest arguments s) : Prog P _) fun
      | .done (some s') => rest = [] ∧ s' = s
      | .done none => ¬P.Succeeds
      | .next f => ∃ rest' arguments' front ps', rest'.length < rest.length ∧ ps = front ++ ps' ∧
          Matching rest' arguments' ps' ∧ f = .before rest' arguments' (front.foldl Piece.onto s) := by
  have short := h.short
  cases h.front with
  | stop format pieces =>
    subst format
    exact .pure ⟨rfl, rfl⟩
  | @literal octet rest' ps' plain format pieces tail =>
    subst format pieces
    rw [iteration_literal plain]
    exact .pure ⟨rest', arguments, [.literal octet], ps', by simp, rfl, tail, rfl⟩
  | @directive octet rest' piece arguments' ps' format found pieces tail =>
    subst format pieces
    refine (ensures_iteration_directive found short s).mono ?_
    rintro r (⟨rfl, refused⟩ | rfl)
    · exact refused
    · exact ⟨rest', arguments', piece.toList, ps', by simp, rfl, tail, rfl⟩

/-- What formatting puts out, unless memory runs out. -/
def expansion (ps : List Piece) : List UInt8 := ps.flatMap Piece.octets

theorem expansion_append (ps qs : List Piece) : expansion (ps ++ qs) = expansion ps ++ expansion qs := by
  simp [expansion]

theorem expansion_argument (octets : List UInt8) (ps : List Piece) :
    expansion (.argument octets :: ps) = octets ++ expansion ps := by
  simp [expansion, Piece.octets]

theorem expansion_literals (run : List UInt8) : expansion (literals run) = run := by
  induction run with
  | nil => rfl
  | cons octet run ih =>
    rw [expansion, literals] at ih
    simp [expansion, literals, Piece.octets, ih]

theorem octets_onto (s : SlString) (piece : Piece) : (piece.onto s).octets = s.octets ++ piece.octets := by
  cases piece with
  | literal octet => rfl
  | argument octets => exact SlString.octets_appended s octets

theorem octets_foldl_onto (s : SlString) (ps : List Piece) :
    (ps.foldl Piece.onto s).octets = s.octets ++ expansion ps := by
  induction ps generalizing s with
  | nil => simp [expansion]
  | cons piece ps ih => simp [ih, octets_onto, expansion]

/-- The loop from any point of the format. -/
theorem ensures_formatLoop {rest : List UInt8} {arguments : List Argument} {ps : List Piece}
    (h : Matching rest arguments ps) (s : SlString) {fuel : Nat} (enough : rest.length < fuel) :
    Prog.Ensures (Prog.whileLoop formatIteration fuel (.before rest arguments s) : Prog P _) fun
      | some s' => s'.octets = s.octets ++ expansion ps
      | none => ¬P.Succeeds := by
  refine Prog.ensures_whileLoop
    (fun f => ∃ rest arguments ps' s', Matching rest arguments ps' ∧ f = .before rest arguments s' ∧
      s.octets ++ expansion ps = s'.octets ++ expansion ps')
    (fun f => f.length) ?_ fuel _ ⟨rest, arguments, ps, s, h, rfl, rfl⟩ enough
  rintro f ⟨rest, arguments, ps', s', matching, rfl, same⟩
  refine (ensures_iteration matching s').mono fun r hr => ?_
  match r with
  | .done (some _) =>
    obtain ⟨rfl, rfl⟩ := hr
    have none_left : ps' = [] := by simpa [pieces] using matching.pieces.symm
    rw [none_left] at same
    simpa [expansion] using same.symm
  | .done none => exact hr
  | .next _ =>
    obtain ⟨rest', arguments', front, ps'', shorter, rfl, matching', rfl⟩ := hr
    refine ⟨⟨rest', arguments', ps'', _, matching', rfl, ?_⟩, shorter⟩
    rw [same, octets_foldl_onto]
    simp [expansion]

/-- **Formatting expands the pieces**, or is refused memory; it never faults. -/
theorem ensures_format {fmt : CString} {arguments : List Argument} {ps : List Piece}
    (h : Matching fmt.octets arguments ps) :
    Prog.Ensures (format fmt arguments : Prog P _) fun
      | some s => s.octets = expansion ps
      | none => ¬P.Succeeds := by
  refine (SlString.ensures_createFromBuffer [] _).bind fun r hr => ?_
  cases r with
  | none => exact .pure hr
  | some s =>
    refine (ensures_formatLoop h s (by simp [CString.memory])).mono fun r' hr' => ?_
    cases r' with
    | none => exact hr'
    | some s' =>
      have empty : s.octets = [] := by rw [hr]; rfl
      rw [empty, List.nil_append] at hr'
      exact hr'

/-! ## What formatting is made of -/

variable {C : (α : Type) → Prog P α → Prop}

theorem compositional_formatDirective (law : Prog.Compositional P C) (octet : UInt8) (f : Formatting) :
    C _ (formatDirective octet f : Prog P _) := by
  have append : ∀ (octets : List UInt8) (rest : List Argument), C _
      ((f.string.appendWithBuffer octets : Prog P _) >>= fun string =>
        pure (string.map fun string => { f with arguments := rest, string })) :=
    fun octets _ => law.bind (SlString.compositional_appendWithBuffer law f.string octets) fun _ => law.pure _
  unfold formatDirective
  split
  · split
    · exact law.bind (law.lift _) fun r => law.bind (law.lift _) fun digits => append digits _
    · exact law.fault _
  · split
    · split
      · exact law.pure _
      · exact append _ _
      · exact law.fault _
    · split
      · split
        · exact law.pure _
        · exact append _ _
        · exact law.fault _
      · exact law.pure _

theorem compositional_format (law : Prog.Compositional P C) (fmt : CString) (arguments : List Argument) :
    C _ (format fmt arguments : Prog P _) := by
  refine law.bind (SlString.compositional_createFromBuffer law _ _) fun string => ?_
  cases string with
  | none => exact law.pure _
  | some string =>
    refine law.whileLoop (fun f => ?_) _ _
    unfold formatIteration
    split
    · exact law.pure _
    · split
      · exact law.fault _
      · split
        · exact law.pure _
        · split
          · exact law.fault _
          · refine law.bind (compositional_formatDirective law _ _) fun r => ?_
            cases r with
            | none => exact law.pure _
            | some f' => exact law.pure _

end Cpptrw.Text
