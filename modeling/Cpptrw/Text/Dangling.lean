import Cpptrw.Text.Format

/-!
# A format that ends in `%`

`sl_string_format_buffer` takes two octets for a directive and lowers its count
of octets by two. When the `%` is the last octet the second of these is the
terminator, the count goes from one to the largest number there is, and the
loop goes on behind the format.
-/

namespace Cpptrw.Text

open Lib Arena

variable {P : Platform}

/-- The pieces of a format, in which a `%` that ends the format stands for nothing. -/
def reading : List UInt8 → List Argument → Option (List Piece)
  | [], _ => some []
  | octet :: format, arguments =>
    if octet ≠ percent then (reading format arguments).map (.literal octet :: ·)
    else
      match format with
      | [] => some []
      | directive :: format =>
        match directivePiece directive arguments with
        | none => none
        | some (piece, arguments) => (reading format arguments).map (piece.toList ++ ·)

/-- A `%` that no directive comes behind. -/
def dangling : List UInt8 → Bool
  | [] => false
  | octet :: format =>
    if octet ≠ percent then dangling format
    else
      match format with
      | [] => true
      | _ :: format => dangling format

theorem dangling_literal {octet : UInt8} (plain : octet ≠ percent) (format : List UInt8) :
    dangling (octet :: format) = dangling format := by
  rw [dangling.eq_def]
  exact if_pos plain

theorem dangling_directive (directive : UInt8) (format : List UInt8) :
    dangling (percent :: directive :: format) = dangling format := by
  rw [dangling.eq_def]
  simp

/-- Without such a `%` the two readings are one. -/
theorem pieces_eq_reading {format : List UInt8} {arguments : List Argument} (whole : dangling format = false) :
    pieces format arguments = reading format arguments := by
  induction format using dangling.induct generalizing arguments with
  | case1 => rw [pieces, reading]
  | case2 octet format plain ih =>
    rw [dangling_literal plain] at whole
    rw [pieces.eq_def, reading.eq_def]
    dsimp only
    rw [if_pos plain, if_pos plain, ih whole]
  | case3 octet here => simp [dangling, here] at whole
  | case4 octet here directive format ih =>
    obtain rfl := not_not.mp here
    rw [dangling_directive] at whole
    rw [pieces.eq_def, reading.eq_def]
    dsimp only
    rw [if_neg here, if_neg here]
    cases directivePiece directive arguments with
    | none => rfl
    | some found => simp [ih whole]

/-! ## Behind the terminator -/

/-- Two passes: the terminator is taken for a directive, and what is behind it for a literal. -/
theorem formatLoop_percent (arguments : List Argument) (string : SlString) (fuel : Nat) (s : P.State) :
    (Prog.whileLoop formatIteration (fuel + 2) (.before [percent] arguments string) : Prog P _) s = .error .outOfBounds := by
  have terminator : formatDirective (0 : UInt8) ⟨[percent, 0], 1, arguments, string⟩ =
      (pure (some ⟨[percent, 0], 1, arguments, string⟩) : Prog P _) := by
    simp [formatDirective, show (0 : UInt8) ≠ code 'z' by decide, show (0 : UInt8) ≠ code 's' by decide,
      show (0 : UInt8) ≠ code 'S' by decide]
  have first : (formatIteration ⟨[percent, 0], 1, arguments, string⟩ : Prog P _) =
      pure (.next ⟨[], sub64 0 1, arguments, string⟩) := by
    simp [formatIteration, terminator]
  have second : (formatIteration ⟨[], sub64 0 1, arguments, string⟩ : Prog P _) = Prog.fault .outOfBounds := by
    simp [formatIteration, show sub64 0 1 ≠ 0 by decide]
  change (Prog.whileLoop formatIteration (fuel + 2) ⟨[percent, 0], 1, arguments, string⟩ : Prog P _) s = _
  rw [Prog.whileLoop, first, pure_bind]
  dsimp only
  rw [Prog.whileLoop, second]
  rfl

/-- **The loop runs behind the format.** -/
theorem formatLoop_dangling (all : P.Succeeds) {format : List UInt8} {arguments : List Argument} {ps : List Piece}
    (ends : dangling format = true) (matching : reading format arguments = some ps) (short : format.length < 2 ^ 64) {fuel : Nat}
    (enough : format.length < fuel) (string : SlString) (s : P.State) :
    (Prog.whileLoop formatIteration fuel (.before format arguments string) : Prog P _) s = .error .outOfBounds := by
  induction format using dangling.induct generalizing arguments ps fuel string s with
  | case1 => cases ends
  | case2 octet format plain ih =>
    rw [dangling_literal plain] at ends
    rw [reading.eq_def] at matching
    dsimp only at matching
    rw [if_pos plain] at matching
    obtain ⟨ps', matching, -⟩ := Option.map_eq_some_iff.mp matching
    obtain ⟨fuel, rfl⟩ : ∃ n, fuel = n + 1 := ⟨fuel - 1, by omega⟩
    simp only [List.length_cons] at short enough
    rw [Prog.whileLoop, iteration_literal plain, pure_bind]
    exact ih ends matching (by omega) (by omega) _ s
  | case3 octet here =>
    obtain rfl := not_not.mp here
    obtain ⟨fuel, rfl⟩ : ∃ n, fuel = n + 2 := ⟨fuel - 2, by simp at enough; omega⟩
    exact formatLoop_percent arguments string fuel s
  | case4 octet here directive format ih =>
    obtain rfl := not_not.mp here
    rw [dangling_directive] at ends
    rw [reading.eq_def] at matching
    dsimp only at matching
    rw [if_neg here] at matching
    split at matching
    · cases matching
    · rename_i piece left found
      obtain ⟨ps', matching, -⟩ := Option.map_eq_some_iff.mp matching
      obtain ⟨fuel, rfl⟩ : ∃ n, fuel = n + 1 := ⟨fuel - 1, by omega⟩
      obtain ⟨r, s', run, outcome⟩ := ensures_iteration_directive (P := P) found short string s
      simp only [List.length_cons] at short enough
      rw [Prog.whileLoop, Prog.bind_apply, run]
      rcases outcome with ⟨-, refused⟩ | rfl
      · exact absurd all refused
      · exact ih ends matching (by omega) (by omega) _ s'

/-- The result is the concatenation of what the pieces stand for. -/
def Expands (m : Prog P (Option SlString)) (ps : List Piece) : Prop :=
  Prog.Ensures m fun result => ∃ string, result = some string ∧ string.octets = expansion ps

/-- Formatting reads behind the terminator. -/
theorem format_dangling (all : P.Succeeds) {fmt : CString} {arguments : List Argument} {ps : List Piece}
    (ends : dangling fmt.octets = true) (matching : reading fmt.octets arguments = some ps) (short : fmt.octets.length < 2 ^ 64)
    (s : P.State) : (format fmt arguments : Prog P _) s = .error .outOfBounds := by
  obtain ⟨made, s₁, created, outcome⟩ := SlString.ensures_createFromBuffer (P := P) [] (wrap64 (fmt.octets.length <<< 1)) s
  rw [format, formatBuffer, Prog.bind_apply, created]
  cases made with
  | none => exact absurd all outcome
  | some string => exact formatLoop_dangling all ends matching short (by simp [CString.memory]) string s₁

/-- **Formatting equals its reference expansion** and stays inside the format, if and only if no `%`
ends the format. -/
theorem format_expands_iff (all : P.Succeeds) {fmt : CString} {arguments : List Argument} {ps : List Piece}
    (matching : reading fmt.octets arguments = some ps) (short : fmt.octets.length < 2 ^ 64) (s : P.State) :
    Expands (format fmt arguments : Prog P _) ps ↔ dangling fmt.octets = false := by
  constructor
  · intro expands
    by_contra ends
    rw [Bool.not_eq_false] at ends
    obtain ⟨result, s', run, -⟩ := expands s
    rw [format_dangling all ends matching short s] at run
    cases run
  · intro whole
    refine (ensures_format ⟨(pieces_eq_reading whole).trans matching, short⟩).mono fun result expands => ?_
    cases result with
    | none => exact absurd all expands
    | some string => exact ⟨string, rfl, expands⟩

def countFormat : CString := ⟨octetsOf "%z!", by decide⟩

theorem format_expands_iff_count :
    Expands (format countFormat [.number 7] : Prog .ample _) [.argument (decimal 7), .literal (code '!')] ↔
      dangling countFormat.octets = false :=
  @format_expands_iff .ample Platform.ample_succeeds countFormat [.number 7] [.argument (decimal 7), .literal (code '!')] rfl
    (by decide) ()

def percentFormat : CString := ⟨[percent], by decide⟩

/-- The format of a single `%`. It stands for nothing, and the loop reads behind its terminator. -/
theorem percent_not_expanded :
    reading percentFormat.octets [] = some [] ∧
      (format percentFormat [] : Prog .ample _).value () = .error .outOfBounds ∧
      ¬Expands (format percentFormat [] : Prog .ample _) [] := by
  have faults : (format percentFormat [] : Prog .ample _) () = .error .outOfBounds :=
    format_dangling Platform.ample_succeeds (by decide) (show reading percentFormat.octets [] = some [] from rfl) (by decide) ()
  refine ⟨rfl, congrArg (Except.map Prod.fst) faults, fun expands => ?_⟩
  obtain ⟨result, s', run, -⟩ := expands ()
  exact absurd (faults.symm.trans run) (by simp)

end Cpptrw.Text
