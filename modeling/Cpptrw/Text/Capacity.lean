import Cpptrw.Text.Format

/-!
# The capacity of a formatted string

An append makes room, a literal octet does not: it is stored at `length`
whether or not that is below the capacity. The capacity is first twice the
length of the format, rounded up, and from then on twice what the string was at
its last growth, rounded up. So the string can be exactly full, and a literal
that comes just then is stored behind the buffer. `Full` are the offsets at
which a string is full, and `formatting_capacity_iff` says that nothing else
goes wrong.
-/

namespace Cpptrw.Text

open Lib Arena SlString

variable {P : Platform}

/-- The loop states of a run of `sl_string_format` from the platform state `s₀`. -/
inductive FormatReach (P : Platform) (s₀ : P.State) (fmt : CString) (arguments : List Argument) :
    Formatting → P.State → Prop
  | enter {string : SlString} {s : P.State}
      (run : SlString.createFromBuffer [] (wrap64 (fmt.octets.length <<< 1)) s₀ = .ok (some string, s)) :
      FormatReach P s₀ fmt arguments ⟨fmt.memory, fmt.octets.length, arguments, string⟩ s
  | pass {f f' : Formatting} {s s' : P.State} (before : FormatReach P s₀ fmt arguments f s)
      (run : formatIteration f s = .ok (.next f', s')) : FormatReach P s₀ fmt arguments f' s'

/-- The next pass stores a literal octet. -/
def Formatting.AtLiteral (f : Formatting) : Prop :=
  f.length ≠ 0 ∧ ∃ octet format, f.format = octet :: format ∧ octet ≠ percent

/-- The string fits its buffer in this state, and the literal that is stored next does. -/
def Formatting.CapacitySafe (f : Formatting) : Prop :=
  f.string.length ≤ f.string.allocated ∧ (f.AtLiteral → f.string.length < f.string.allocated)

/-- The length of the output. -/
def width (ps : List Piece) : Nat := (expansion ps).length

theorem width_append (ps qs : List Piece) : width (ps ++ qs) = width ps + width qs := by
  simp [width, expansion]

theorem width_literal (octet : UInt8) : width [.literal octet] = 1 := rfl

theorem width_argument_le (front back : List Piece) (octets : List UInt8) :
    width front + octets.length ≤ width (front ++ .argument octets :: back) := by
  simp [width, expansion, Piece.octets]

theorem width_argument (octets : List UInt8) : width [.argument octets] = octets.length := by
  simp [width, expansion, Piece.octets]

/-- The offsets at which the string is full when the pieces have been put onto
it, for a format of `n` octets: the first capacity, and the capacity after an
argument that ran over such an offset. -/
inductive Full (n : Nat) (ps : List Piece) : Nat → Prop
  | first : Full n ps (grownSize n)
  | grown {front back : List Piece} {octets : List UInt8} {limit : Nat} (before : Full n ps limit)
      (split : ps = front ++ .argument octets :: back) (starts : width front ≤ limit)
      (ends : limit < width front + octets.length) : Full n ps (grownSize (width front + octets.length))

/-- No literal comes when the string is full, and no argument makes it grow beyond `2 ^ 62` octets. -/
def Clear (n : Nat) (ps : List Piece) : Prop :=
  (∀ front octet back, ps = front ++ .literal octet :: back → ¬Full n front (width front)) ∧
  ∀ front octets back limit, ps = front ++ .argument octets :: back → Full n front limit → width front ≤ limit →
    limit < width front + octets.length → width front + octets.length ≤ 2 ^ 62

/-! ## The capacity after each piece -/

/-- A growth makes room exactly up to `2 ^ 62` octets. -/
theorem le_grownSize_iff {n : Nat} (pos : 1 ≤ n) : n ≤ grownSize n ↔ n ≤ 2 ^ 62 := by
  constructor
  · intro room
    by_contra large
    have cap := pow2Size_le (wrap64 (n <<< 1))
    rw [grownSize] at room
    rcases Nat.lt_or_ge n (2 ^ 63) with below | above
    · have double : wrap64 (n <<< 1) = 2 * n := by
        rw [Nat.shiftLeft_eq, wrap64_of_lt (by omega)]
        omega
      rw [double, pow2Size_of_large (by omega) (by omega)] at room
      omega
    · have exact_ : n = 2 ^ 63 := by omega
      subst exact_
      rw [show wrap64 (2 ^ 63 <<< 1) = 0 by decide, pow2Size_zero] at room
      omega
  · intro small
    have double : wrap64 (n <<< 1) = 2 * n := by
      rw [Nat.shiftLeft_eq, wrap64_of_lt (by omega)]
      omega
    have := le_pow2Size (show 2 * n ≤ 2 ^ 63 by omega)
    rw [grownSize, double]
    omega

theorem lt_grownSize {n : Nat} (pos : 1 ≤ n) (small : n ≤ 2 ^ 62) : n < grownSize n := by
  have double : wrap64 (n <<< 1) = 2 * n := by
    rw [Nat.shiftLeft_eq, wrap64_of_lt (by omega)]
    omega
  have := le_pow2Size (show 2 * n ≤ 2 ^ 63 by omega)
  rw [grownSize, double]
  omega

/-- The capacity `cap` after the pieces, and where it stands among the full offsets. -/
structure Capacity (n : Nat) (ps : List Piece) (cap : Nat) : Prop where
  full : Full n ps cap
  room : width ps ≤ cap
  latest : ∀ limit, Full n ps limit → limit = cap ∨ limit < width ps

theorem Capacity.start (n : Nat) : Capacity n [] (grownSize n) where
  full := .first
  room := Nat.zero_le _
  latest := by
    intro limit full
    cases full with
    | first => exact Or.inl rfl
    | grown _ split _ _ => simp at split

/-- The last of some pieces, or one of those before it. -/
theorem snoc_split {ps front back : List Piece} {p q : Piece} (split : ps ++ [p] = front ++ q :: back) :
    (∃ back', ps = front ++ q :: back') ∨ ps = front ∧ p = q := by
  rcases List.eq_nil_or_concat back with rfl | ⟨back, last, rfl⟩
  · obtain ⟨rfl, same⟩ := List.append_inj' split rfl
    exact Or.inr ⟨rfl, by simpa using same⟩
  · rw [List.concat_eq_append, ← List.cons_append, ← List.append_assoc] at split
    obtain ⟨rfl, -⟩ := List.append_inj' split rfl
    exact Or.inl ⟨back, rfl⟩

/-- More pieces keep the full offsets. -/
theorem Full.snoc {n limit : Nat} {ps : List Piece} (h : Full n ps limit) (p : Piece) : Full n (ps ++ [p]) limit := by
  induction h with
  | first => exact .first
  | @grown front back octets limit _ split starts ends ih =>
    exact .grown ih (by rw [split, List.append_assoc, List.cons_append]) starts ends

/-- A piece that does not run over the capacity adds no full offset. -/
theorem Full.of_snoc {n cap limit : Nat} {ps : List Piece} {p : Piece} (here : Capacity n ps cap)
    (fits : width ps + width [p] ≤ cap) (h : Full n (ps ++ [p]) limit) : Full n ps limit := by
  induction h with
  | first => exact .first
  | @grown front back octets limit _ split starts ends ih =>
    rcases snoc_split split with ⟨back', rfl⟩ | ⟨rfl, rfl⟩
    · exact .grown ih rfl starts ends
    · rw [width_argument] at fits
      rcases here.latest limit ih with rfl | passed <;> omega

/-- An argument that runs over the capacity adds the new capacity. -/
theorem Full.of_grown {n cap limit : Nat} {ps : List Piece} {octets : List UInt8}
    (small : width ps + octets.length ≤ 2 ^ 62) (beyond : cap < width ps + octets.length)
    (h : Full n (ps ++ [.argument octets]) limit) :
    Full n ps limit ∨ limit = grownSize (width ps + octets.length) := by
  have room := lt_grownSize (show 1 ≤ width ps + octets.length by omega) small
  induction h with
  | first => exact Or.inl .first
  | @grown front back octets' limit _ split starts ends ih =>
    rcases snoc_split split with ⟨back', rfl⟩ | ⟨rfl, same⟩
    · rcases ih with before | rfl
      · exact Or.inl (.grown before rfl starts ends)
      · -- the new capacity lies behind every argument before it
        have := width_argument_le front back' octets'
        omega
    · cases same
      exact Or.inr rfl

theorem Capacity.keep {n cap : Nat} {ps : List Piece} {p : Piece} (here : Capacity n ps cap)
    (fits : width ps + width [p] ≤ cap) : Capacity n (ps ++ [p]) cap where
  full := here.full.snoc p
  room := by rwa [width_append]
  latest := by
    intro limit full
    rw [width_append]
    rcases here.latest limit (full.of_snoc here fits) with rfl | passed
    · exact Or.inl rfl
    · exact Or.inr (by omega)

theorem Capacity.grow {n cap : Nat} {ps : List Piece} {octets : List UInt8} (here : Capacity n ps cap)
    (beyond : cap < width ps + octets.length) (small : width ps + octets.length ≤ 2 ^ 62) :
    Capacity n (ps ++ [.argument octets]) (grownSize (width ps + octets.length)) where
  full := .grown (here.full.snoc _) rfl here.room beyond
  room := by
    rw [width_append, width_argument]
    exact (lt_grownSize (by omega) small).le
  latest := by
    intro limit full
    rw [width_append, width_argument]
    rcases full.of_grown small beyond with before | rfl
    · rcases here.latest limit before with rfl | passed
      · exact Or.inr beyond
      · exact Or.inr (by omega)
    · exact Or.inl rfl

/-! ## Safety of the pieces left -/

/-- Putting the pieces onto the string is safe. -/
def SafeFrom : SlString → List Piece → Prop
  | s, [] => s.length ≤ s.allocated
  | s, .literal octet :: ps => s.length < s.allocated ∧ SafeFrom (s.push octet) ps
  | s, .argument octets :: ps => s.length ≤ s.allocated ∧ SafeFrom (s.appended octets) ps

theorem SafeFrom.room {s : SlString} {ps : List Piece} (h : SafeFrom s ps) : s.length ≤ s.allocated := by
  match ps, h with
  | [], h => exact h
  | .literal _ :: _, h => exact h.1.le
  | .argument _ :: _, h => exact h.1

/-- `Clear`, for the pieces that are left. -/
def ClearFrom (n : Nat) (front back : List Piece) : Prop :=
  (∀ between octet rest, back = between ++ .literal octet :: rest →
    ¬Full n (front ++ between) (width (front ++ between))) ∧
  ∀ between octets rest limit, back = between ++ .argument octets :: rest → Full n (front ++ between) limit →
    width (front ++ between) ≤ limit → limit < width (front ++ between) + octets.length →
    width (front ++ between) + octets.length ≤ 2 ^ 62

/-- The condition on one piece, behind those in `front`. -/
def ClearAt (n : Nat) (front : List Piece) : Piece → Prop
  | .literal _ => ¬Full n front (width front)
  | .argument octets => ∀ limit, Full n front limit → width front ≤ limit →
      limit < width front + octets.length → width front + octets.length ≤ 2 ^ 62

theorem clearFrom_cons {n : Nat} {front back : List Piece} {p : Piece} :
    ClearFrom n front (p :: back) ↔ ClearAt n front p ∧ ClearFrom n (front ++ [p]) back := by
  constructor
  · rintro ⟨literals, arguments⟩
    refine ⟨?_, ?_, ?_⟩
    · cases p with
      | literal octet => simpa [ClearAt] using literals [] octet back rfl
      | argument octets => simpa [ClearAt] using fun limit => arguments [] octets back limit rfl
    · intro between octet rest split
      simpa using literals (p :: between) octet rest (by rw [split]; rfl)
    · intro between octets rest limit split
      simpa using arguments (p :: between) octets rest limit (by rw [split]; rfl)
  · rintro ⟨here, literals, arguments⟩
    constructor
    · intro between octet rest split
      cases between with
      | nil =>
        cases split
        simpa [ClearAt] using here
      | cons q between =>
        cases split
        simpa using literals between octet rest rfl
    · intro between octets rest limit split
      cases between with
      | nil =>
        cases split
        simpa [ClearAt] using here limit
      | cons q between =>
        cases split
        simpa using arguments between octets rest limit rfl

/-- **The pieces left are safe exactly when they are clear.** -/
theorem safeFrom_iff {n : Nat} {back : List Piece} : ∀ {front : List Piece} {s : SlString},
    Capacity n front s.allocated → s.length = width front → (SafeFrom s back ↔ ClearFrom n front back) := by
  induction back with
  | nil =>
    intro front s here length
    have clear : ClearFrom n front [] := by constructor <;> (intros; simp_all)
    exact ⟨fun _ => clear, fun _ => by rw [SafeFrom, length]; exact here.room⟩
  | cons p back ih =>
    intro front s here length
    rw [clearFrom_cons]
    cases p with
    | literal octet =>
      have at_ : s.length < s.allocated ↔ ¬Full n front (width front) := by
        rw [length]
        refine ⟨fun below full => ?_, fun clear => here.room.lt_of_ne fun same => clear (same ▸ here.full)⟩
        rcases here.latest _ full with same | passed <;> omega
      rw [SafeFrom, ClearAt, at_]
      refine and_congr_right fun clear => ih (here.keep ?_) (by simp [length, width_append, width_literal])
      rw [width_literal]
      have := at_.mpr clear
      omega
    | argument octets =>
      by_cases fits : s.length + octets.length ≤ s.allocated
      · have same : s.appended octets = { s with octets := s.octets ++ octets } := if_pos fits
        have head : ClearAt n front (.argument octets) := by
          intro limit full starts ends
          rcases here.latest limit full with rfl | passed <;> omega
        have tail : SafeFrom (s.appended octets) back ↔ ClearFrom n (front ++ [.argument octets]) back :=
          ih (by rw [same]; exact here.keep (by rw [width_argument]; omega))
            (by simp [length, width_append, width_argument])
        rw [SafeFrom, tail]
        exact ⟨fun h => ⟨head, h.2⟩, fun h => ⟨by omega, h.2⟩⟩
      · have same : s.appended octets = ⟨grownSize (s.length + octets.length), s.octets ++ octets⟩ := if_neg fits
        have tail : s.length + octets.length ≤ 2 ^ 62 →
            (SafeFrom (s.appended octets) back ↔ ClearFrom n (front ++ [.argument octets]) back) := by
          intro small
          refine ih ?_ (by simp [length, width_append, width_argument])
          rw [same, length]
          exact here.grow (by omega) (by omega)
        constructor
        · rintro ⟨-, safe⟩
          have small : s.length + octets.length ≤ 2 ^ 62 := by
            have room := safe.room
            rw [SlString.length_appended, same] at room
            exact (le_grownSize_iff (by omega)).mp room
          exact ⟨fun _ _ _ _ => by omega, (tail small).mp safe⟩
        · rintro ⟨head, clear⟩
          have small := head _ here.full here.room (by omega)
          exact ⟨by rw [length]; exact here.room, (tail (by omega)).mpr clear⟩

/-! ## Runs -/

/-- A directive puts an argument onto the string, or nothing. -/
theorem directivePiece_argument {octet : UInt8} {arguments left : List Argument} {piece : Piece}
    (h : directivePiece octet arguments = some (some piece, left)) : ∃ octets, piece = .argument octets := by
  unfold directivePiece at h
  split at h
  · split at h
    · cases h; exact ⟨_, rfl⟩
    · cases h
  · split at h
    · split at h
      · rename_i value rest
        cases value with
        | none => cases h
        | some s => cases h; exact ⟨_, rfl⟩
      · cases h
    · split at h
      · split at h
        · rename_i value rest
          cases value with
          | none => cases h
          | some s => cases h; exact ⟨_, rfl⟩
        · cases h
      · cases h

/-- What a run has reached: some of the format is left, and what is left of the pieces is safe. -/
def SafeState (f : Formatting) : Prop :=
  ∃ rest arguments string ps, f = .before rest arguments string ∧ Matching rest arguments ps ∧ SafeFrom string ps

theorem SafeState.capacitySafe {f : Formatting} (h : SafeState f) : f.CapacitySafe := by
  obtain ⟨rest, arguments, string, ps, rfl, matching, safe⟩ := h
  refine ⟨safe.room, ?_⟩
  rintro ⟨more, octet, format, head, plain⟩
  cases matching.front with
  | stop format pieces =>
    subst format
    exact absurd rfl more
  | literal _ _ pieces _ =>
    subst pieces
    exact safe.1
  | directive format _ _ _ =>
    subst format
    cases head
    exact absurd rfl plain

theorem SafeState.pass {f f' : Formatting} {s s' : P.State} (h : SafeState f)
    (run : formatIteration f s = .ok (.next f', s')) : SafeState f' := by
  obtain ⟨rest, arguments, string, ps, rfl, matching, safe⟩ := h
  have short := matching.short
  cases matching.front with
  | stop format pieces =>
    subst format
    cases run
  | literal plain format pieces tail =>
    subst format pieces
    rw [iteration_literal plain] at run
    cases run
    exact ⟨_, _, _, _, rfl, tail, safe.2⟩
  | @directive _ _ piece _ _ format found pieces tail =>
    subst format pieces
    rcases (ensures_iteration_directive found short string).of_run run with ⟨refused, -⟩ | next
    · cases refused
    · cases next
      refine ⟨_, _, _, _, rfl, tail, ?_⟩
      cases piece with
      | none => exact safe
      | some piece =>
        obtain ⟨octets, rfl⟩ := directivePiece_argument found
        exact safe.2

/-- If every state of a run is safe, so are the pieces that are left in it. -/
theorem safeFrom_of_reach {s₀ : P.State} {fmt : CString} {arguments : List Argument} (all : P.Succeeds)
    (safe : ∀ f s, FormatReach P s₀ fmt arguments f s → f.CapacitySafe) :
    ∀ (k : Nat) {rest : List UInt8} {left : List Argument} {ps : List Piece} {string : SlString} {s : P.State},
      rest.length = k → FormatReach P s₀ fmt arguments (.before rest left string) s → Matching rest left ps →
      SafeFrom string ps := by
  intro k
  induction k using Nat.strong_induction_on with
  | _ k ih =>
    intro rest left ps string s size reached matching
    have short := matching.short
    have here := safe _ _ reached
    cases matching.front with
    | stop format pieces =>
      subst format pieces
      exact here.1
    | @literal octet rest' _ plain format pieces tail =>
      subst format pieces
      have next := reached.pass (congrFun (iteration_literal plain rest' left string) s)
      exact ⟨here.2 ⟨by simp [Formatting.before], octet, rest' ++ [0], rfl, plain⟩,
        ih rest'.length (by simp at size; omega) rfl next tail⟩
    | @directive octet rest' piece left' ps' format found pieces tail =>
      subst format pieces
      obtain ⟨r, s', run, ⟨-, refused⟩ | rfl⟩ := ensures_iteration_directive found short string s
      · exact absurd all refused
      · have later := ih rest'.length (by simp at size; omega) rfl (reached.pass run) tail
        cases piece with
        | none => exact later
        | some piece =>
          obtain ⟨octets, rfl⟩ := directivePiece_argument found
          exact ⟨here.1, later⟩

theorem enter_before {s₀ s : P.State} {fmt : CString} {string : SlString}
    (run : SlString.createFromBuffer [] (wrap64 (fmt.octets.length <<< 1)) s₀ = .ok (some string, s))
    (arguments : List Argument) :
    (⟨fmt.memory, fmt.octets.length, arguments, string⟩ : Formatting) =
      .before fmt.octets arguments ⟨grownSize fmt.octets.length, []⟩ := by
  have created := (SlString.ensures_createFromBuffer [] _).of_run run
  rw [show string = _ from created]
  rfl

/-- **Capacity safety of formatting**: every store of every run is inside the
buffer, and the string fits it throughout, exactly when no literal comes at an
offset where the string is full. -/
theorem formatting_capacity_iff (all : P.Succeeds) {fmt : CString} {arguments : List Argument} {ps : List Piece}
    (h : Matching fmt.octets arguments ps) (s₀ : P.State) :
    (∀ f s, FormatReach P s₀ fmt arguments f s → f.CapacitySafe) ↔ Clear fmt.octets.length ps := by
  have start : SafeFrom ⟨grownSize fmt.octets.length, []⟩ ps ↔ ClearFrom fmt.octets.length [] ps :=
    safeFrom_iff (Capacity.start _) rfl
  rw [show Clear fmt.octets.length ps = ClearFrom fmt.octets.length [] ps from rfl, ← start]
  constructor
  · intro safe
    obtain ⟨string, s, run, created⟩ := SlString.ensures_createFromBuffer [] (wrap64 (fmt.octets.length <<< 1)) s₀
    cases string with
    | none => exact absurd all created
    | some string =>
      have reached : FormatReach P s₀ fmt arguments _ s := .enter run
      rw [enter_before run] at reached
      exact safeFrom_of_reach all safe _ rfl reached h
  · intro safe f s reached
    have state : SafeState f := by
      induction reached with
      | enter run => exact ⟨_, _, _, _, enter_before run _, h, safe⟩
      | pass _ run ih => exact ih.pass run
    exact state.capacitySafe

/-- `"%S="` with an argument of one octet. -/
theorem formatting_capacity_iff_short :
    (∀ f s, FormatReach Platform.ample () ⟨octetsOf "%S=", by decide⟩ [.string (some [65])] f s → f.CapacitySafe) ↔
      Clear 3 [.argument [65], .literal 61] := by
  have reading : pieces (octetsOf "%S=") [.string (some [65])] = some [.argument [65], .literal 61] := by
    rw [show octetsOf "%S=" = percent :: code 'S' :: (octetsOf "=" ++ []) by decide, pieces_string,
      pieces_literals (by decide)]
    rfl
  exact formatting_capacity_iff Platform.ample_succeeds ⟨reading, by decide⟩ ()

theorem SafeFrom.after_literals {run : List UInt8} {ps : List Piece} {s : SlString}
    (h : SafeFrom s (literals run ++ ps)) : SafeFrom { s with octets := s.octets ++ run } ps := by
  induction run generalizing s with
  | nil => simpa [literals] using h
  | cons octet run ih => simpa [SlString.push] using ih h.2

/-- The format of the parameter log line with a name of 48 octets: the string is
full with its 64 octets when the equals sign is stored. -/
theorem formatting_capacity_exceeded :
    ¬∀ f s, FormatReach Platform.ample () ⟨octetsOf "FCGI parameter: %S=%S", by decide⟩
      [.string (some (List.replicate 48 65)), .string (some [])] f s → f.CapacitySafe := by
  intro safe
  have matching : Matching (octetsOf "FCGI parameter: %S=%S") [.string (some (List.replicate 48 65)), .string (some [])]
      (literals (octetsOf "FCGI parameter: ") ++ [.argument (List.replicate 48 65), .literal 61, .argument []]) := by
    refine ⟨?_, by decide⟩
    rw [show octetsOf "FCGI parameter: %S=%S" = octetsOf "FCGI parameter: " ++ percent :: code 'S' ::
        (octetsOf "=" ++ percent :: code 'S' :: []) by decide,
      pieces_literals (by decide), pieces_string, pieces_literals (by decide), pieces_string]
    rfl
  have start : FormatReach Platform.ample () ⟨octetsOf "FCGI parameter: %S=%S", by decide⟩
      [.string (some (List.replicate 48 65)), .string (some [])]
      (.before (octetsOf "FCGI parameter: %S=%S") _ (SlString.created [] 42)) () := .enter rfl
  have equals := (safeFrom_of_reach Platform.ample_succeeds safe _ rfl start matching).after_literals.2.1
  exact absurd equals (by decide +kernel)

end Cpptrw.Text
