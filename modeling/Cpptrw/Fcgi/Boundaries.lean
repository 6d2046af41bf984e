import Cpptrw.Fcgi.Record

/-!
# Where a record ends

The parser against the wire format. A params record is accepted exactly when
its content is a sequence of pairs, and is decoded; a stdin record is decoded
exactly when it is padded; a params record that does not end with a pair runs
on behind its end; and the octets consumed are those the header announces,
except in two kinds of record.
-/

namespace Cpptrw.Fcgi

open Lib Lib.Prog

variable {P : Platform} {H : RecordHeader}

/-! ## Inversion of the invariant -/

theorem Body.toParams {x : List UInt8} {p : Parser} (h : Body P H x p) (type : H.type = typeParams)
    (content : H.contentLength ≠ 0) : Params P H x p := by
  cases h with
  | empty none => exact absurd none content
  | begin _ begin => exact absurd (begin.symm.trans type) (by decide)
  | params _ _ h => exact h
  | stdin _ stdin => exact absurd (stdin.symm.trans type) (by decide)
  | unknown _ unknown =>
    rw [type] at unknown
    cases unknown

theorem Body.toStdin {x : List UInt8} {p : Parser} (h : Body P H x p) (type : H.type = typeStdin)
    (content : H.contentLength ≠ 0) : Stdin P H x p := by
  cases h with
  | empty none => exact absurd none content
  | begin _ begin => exact absurd (begin.symm.trans type) (by decide)
  | params _ params => exact absurd (params.symm.trans type) (by decide)
  | stdin _ _ h => exact h
  | unknown _ unknown =>
    rw [type] at unknown
    cases unknown

/-- A finished params record: its pairs, its padding, and nothing else. -/
theorem Params.of_finished {x : List UInt8} {p : Parser} (h : Params P H x p) (finished : p.state = .finished) :
    ∃ done xd pad, x = xd ++ pad ∧ PairsOctets xd done ∧ xd.length = H.contentLength ∧
      pad.length = H.paddingLength.toNat ∧ p.params = done.map Pair.stored := by
  cases h with
  | start => cases finished
  | pair read here inside => exact absurd (Or.inl finished) here.open
  | padding read full some fits => cases finished
  | finished read full all => exact ⟨_, _, _, rfl, read, full, all, rfl⟩
  | refused memory stuck =>
    rw [stuck] at finished
    cases finished

theorem Params.length_of_finished {x : List UInt8} {p : Parser} (h : Params P H x p) (finished : p.state = .finished) :
    x.length = H.contentLength + H.paddingLength.toNat := by
  obtain ⟨done, xd, pad, rfl, -, full, all, -⟩ := h.of_finished finished
  rw [List.length_append, full, all]

theorem Params.finished_of_settled {x : List UInt8} {p : Parser} (h : Params P H x p) (all : P.Succeeds)
    (settled : p.Settled) : p.state = .finished := by
  cases h with
  | start => rcases settled with h | h <;> cases h
  | pair read here inside => exact absurd settled here.open
  | padding read full some fits => rcases settled with h | h <;> cases h
  | finished read full all => rfl
  | refused memory stuck => exact absurd all memory

/-- Behind a record whose content is a sequence of pairs the parser has settled. -/
theorem Params.settled {x : List UInt8} {p : Parser} (h : Params P H x p)
    (past : H.contentLength + H.paddingLength.toNat < x.length) (formed : WellFormed (x.take H.contentLength)) :
    p.Settled := by
  cases h with
  | start => cases past
  | @pair _ xd xp _ read here inside =>
    have more : (xd ++ xp).drop H.contentLength ≠ [] := by
      intro none
      have := List.drop_eq_nil_iff.mp none
      omega
    refine absurd ?_ (inside _ _ (List.take_append_drop H.contentLength _).symm more formed)
    rw [List.length_take]
    omega
  | padding read full some fits =>
    rw [List.length_append] at past
    omega
  | finished read full all => exact Or.inl rfl
  | refused memory stuck => exact Or.inr stuck

/-- What a settled parser has found behind a stdin header. -/
theorem Stdin.of_finished {x : List UInt8} {p : Parser} (h : Stdin P H x p) (finished : p.state = .finished) :
    ∃ xc pad, x = xc ++ pad ∧ xc.length = H.contentLength ∧ pad.length = H.paddingLength.toNat ∧ H.paddingLength ≠ 0 ∧
      p.stdinStream = ⟨H.contentLength, some (terminated xc)⟩ := by
  cases h with
  | start => cases finished
  | data some fits => cases finished
  | padding full some fits => cases finished
  | finished full all padded => exact ⟨_, _, rfl, full, all, padded, rfl⟩
  | unpadded full none stuck =>
    rw [stuck] at finished
    cases finished
  | refused memory stuck =>
    rw [stuck] at finished
    cases finished

/-- A padded stdin record is never an error. -/
theorem Stdin.finished_of_settled {x : List UInt8} {p : Parser} (h : Stdin P H x p) (all : P.Succeeds)
    (padded : H.paddingLength ≠ 0) (settled : p.Settled) : p.state = .finished := by
  cases h with
  | start => rcases settled with h | h <;> cases h
  | data some fits => rcases settled with h | h <;> cases h
  | padding full some fits => rcases settled with h | h <;> cases h
  | finished full pad padded => rfl
  | unpadded full none stuck => exact absurd none padded
  | refused memory stuck => exact absurd all memory

/-- The parser does not go on behind the end of a padded stdin record. -/
theorem Stdin.length_le {x : List UInt8} {p : Parser} (h : Stdin P H x p) (all : P.Succeeds)
    (padded : H.paddingLength ≠ 0) : x.length ≤ H.contentLength + H.paddingLength.toNat := by
  cases h with
  | start => exact Nat.zero_le _
  | data some fits => omega
  | padding full some fits =>
    rw [List.length_append]
    omega
  | finished full pad padded =>
    rw [List.length_append]
    omega
  | unpadded full none stuck => exact absurd none padded
  | refused memory stuck => exact absurd all memory

/-! ## Params records -/

section ParamsRecord

variable {x pad more : List UInt8} {r : Parser × Nat}

/-- A parser that finishes has consumed the content and the padding. -/
theorem Consumed.size {z : List UInt8} (h : Consumed P H z r) (type : H.type = typeParams) (content : H.contentLength ≠ 0)
    (finished : r.1.state = .finished) : r.2 = 8 + H.contentLength + H.paddingLength.toNat := by
  obtain ⟨k, bound, count, body, -⟩ := h
  have := (body.toParams type content).length_of_finished finished
  rw [List.length_take, Nat.min_eq_left bound] at this
  omega

/-- What a finished parser has read is the content. -/
theorem Consumed.pairs (h : Consumed P H (x ++ (pad ++ more)) r) (type : H.type = typeParams) (content : H.contentLength ≠ 0)
    (full : x.length = H.contentLength) (finished : r.1.state = .finished) :
    ∃ done, PairsOctets x done ∧ r.1.params = done.map Pair.stored := by
  have here := h.size type content finished
  obtain ⟨k, bound, count, body, -⟩ := h
  obtain ⟨done, xd, pad', split, read, full', -, stored⟩ := (body.toParams type content).of_finished finished
  rw [List.take_append, List.take_of_length_le (by omega)] at split
  obtain ⟨rfl, -⟩ := List.append_inj split (by omega)
  exact ⟨done, read, stored⟩

/-- With an octet behind the record the parser settles on a sequence of pairs. -/
theorem Consumed.settled (h : Consumed P H (x ++ (pad ++ more)) r) (type : H.type = typeParams)
    (content : H.contentLength ≠ 0) (full : x.length = H.contentLength) (padded : pad.length = H.paddingLength.toNat)
    (some : more ≠ []) (formed : WellFormed x) : r.1.Settled := by
  obtain ⟨k, bound, count, body, settled⟩ := h
  have params := body.toParams type content
  have least := List.length_pos_iff.mpr some
  simp only [List.length_append] at bound settled
  by_cases short : k < x.length + (pad.length + more.length)
  · exact settled short
  · rw [List.take_of_length_le (by simp; omega)] at params
    refine params.settled (by simp; omega) ?_
    rwa [List.take_append_of_le_length (by omega), List.take_of_length_le (by omega)]

/-- It finishes if no memory is refused. -/
theorem Consumed.accepts (h : Consumed P H (x ++ (pad ++ more)) r) (all : P.Succeeds) (type : H.type = typeParams)
    (content : H.contentLength ≠ 0) (full : x.length = H.contentLength) (padded : pad.length = H.paddingLength.toNat)
    (some : more ≠ []) (formed : WellFormed x) : r.1.state = .finished := by
  have settled := h.settled type content full padded some formed
  obtain ⟨k, bound, count, body, -⟩ := h
  exact (body.toParams type content).finished_of_settled all settled

end ParamsRecord

/-- **A params record is accepted exactly when its content is a sequence of
pairs**, which are then the parameters; and whatever follows the header, a
parser that finishes has consumed the content and the padding. -/
theorem params_record_exact (H : RecordHeader) (type : H.type = typeParams) (content : 1 ≤ H.contentLength)
    {z : List UInt8} {chunks : List (List UInt8)} (stream : chunks.flatten = H.octets ++ z) :
    Ensures (Parser.init.parseChunks chunks : Prog P _) fun r =>
      (r.1.state = .finished → r.2 = 8 + H.contentLength + H.paddingLength.toNat) ∧
      (P.Succeeds → ∀ x pad more, z = x ++ (pad ++ more) → x.length = H.contentLength →
        pad.length = H.paddingLength.toNat → more ≠ [] →
        ((r.1.state = .finished ∧ r.2 = 8 + H.contentLength + H.paddingLength.toNat) ↔ WellFormed x) ∧
        ∀ qs, PairsOctets x qs → r.1.params = qs.map Pair.stored) := by
  have some : H.contentLength ≠ 0 := by omega
  refine (ensures_record_chunks H z stream).mono fun r consumed => ⟨consumed.size type some, ?_⟩
  intro all x pad more split full padded follows
  subst split
  have accept := consumed.accepts all type some full padded follows
  refine ⟨⟨fun h => ?_, fun formed => ⟨accept formed, consumed.size type some (accept formed)⟩⟩, fun qs read => ?_⟩
  · obtain ⟨done, read, -⟩ := consumed.pairs type some full h.1
    exact ⟨done, read⟩
  · obtain ⟨done, read', stored⟩ := consumed.pairs type some full (accept ⟨qs, read⟩)
    rw [stored, read'.unique read]

/-- `A=B`, and `AB=C` with a name length of four octets. -/
def twoPairs : List UInt8 := [1, 1, 65, 66, 128, 0, 0, 2, 1, 65, 66, 67]

theorem twoPairs_read : PairsOctets twoPairs [⟨[65], [66]⟩, ⟨[65, 66], [67]⟩] := by
  have first : PairOctets [1, 1, 65, 66] ⟨[65], [66]⟩ := @PairOctets.intro [1] [1] ⟨[65], [66]⟩ (.short 1 (by decide)) (.short 1 (by decide))
  have second : PairOctets [128, 0, 0, 2, 1, 65, 66, 67] ⟨[65, 66], [67]⟩ :=
    @PairOctets.intro [128, 0, 0, 2] [1] ⟨[65, 66], [67]⟩ (.long 128 0 0 2 (by decide)) (.short 1 (by decide))
  exact .cons first (.single second)

/-- Both pairs, two octets of padding and one octet of what comes next, cut inside of the header and the pairs. -/
theorem params_record_exact_two_pairs :
    Ensures (Parser.init.parseChunks [[1, 4, 0, 1], [0, 12, 2, 0, 1, 1, 65], [66, 128, 0], [0, 2, 1, 65, 66, 67, 0], [0, 1]] :
        Prog Platform.ample _) fun r =>
      (r.1.state = .finished ∧ r.2 = 8 + 12 + 2) ∧ r.1.params = [⟨[65], [66]⟩, ⟨[65, 66], [67]⟩].map Pair.stored := by
  refine (@params_record_exact .ample ⟨1, 4, 0, 1, 0, 12, 2, 0⟩ rfl (by decide) (twoPairs ++ [0, 0, 1]) _ rfl).mono fun r led => ?_
  obtain ⟨accepts, decodes⟩ := led.2 Platform.ample_succeeds twoPairs [0, 0] [1] rfl rfl rfl (by decide)
  exact ⟨accepts.mpr ⟨_, twoPairs_read⟩, decodes _ twoPairs_read⟩

/-- Once the octets of a params record have been consumed, the parser takes the
next octet only to settle. -/
def Contained (H : RecordHeader) (z : List UInt8) : Prop :=
  ∀ (P : Platform) (s : P.State) (y rest : List UInt8), z = y ++ rest →
    H.contentLength + H.paddingLength.toNat < y.length →
    Yields (Parser.init.parse (H.octets ++ y) : Prog P _) s fun r => r.1.Settled

/-- **A params record reaches past its end exactly when its content is not a
sequence of pairs** (and there is an octet behind it). -/
theorem params_contained_iff (H : RecordHeader) (type : H.type = typeParams) (content : 1 ≤ H.contentLength)
    (z : List UInt8) :
    Contained H z ↔ z.length ≤ H.contentLength + H.paddingLength.toNat ∨ WellFormed (z.take H.contentLength) := by
  constructor
  · intro contained
    by_cases short : z.length ≤ H.contentLength + H.paddingLength.toNat
    · exact Or.inl short
    · obtain ⟨⟨p, n⟩, ⟨k, bound, count, body, -⟩, settled⟩ :=
        (contained Platform.ample () z [] (List.append_nil z).symm (by omega)).and (ensures_record H z)
      have params := body.toParams type (by omega)
      obtain ⟨done, xd, pad, split, read, full, -, -⟩ :=
        params.of_finished (params.finished_of_settled Platform.ample_succeeds settled)
      have front : z.take H.contentLength = xd := by
        have := congrArg (List.take H.contentLength) split
        rw [← full, List.take_left, List.take_take, Nat.min_eq_left] at this
        · rwa [← full]
        · have := congrArg List.length split
          rw [List.length_take, List.length_append] at this
          omega
      exact Or.inr (front ▸ ⟨done, read⟩)
  · rintro cond P s y rest rfl past
    refine ((ensures_record H y).mono ?_).yields s
    rintro ⟨p, n⟩ ⟨k, bound, count, body, settled⟩
    have params := body.toParams type (by omega)
    by_cases short : k < y.length
    · exact settled short
    · rcases cond with small | formed
      · rw [List.length_append] at small
        omega
      · rw [List.take_of_length_le (by omega)] at params
        rw [List.take_append_of_le_length (by omega)] at formed
        exact params.settled past formed

theorem params_contained_iff_overlong : Contained ⟨1, 4, 0, 1, 0, 2, 0, 0⟩ [1, 0, 1] ↔
    [1, 0, 1].length ≤ 2 + 0 ∨ WellFormed [1, 0] :=
  params_contained_iff ⟨1, 4, 0, 1, 0, 2, 0, 0⟩ rfl (by decide) [1, 0, 1]

/-- A name length that runs beyond the content swallows the first octet of the next header. -/
theorem params_not_contained : ¬Contained ⟨1, 4, 0, 1, 0, 2, 0, 0⟩ [1, 0, 1] := by
  intro contained
  obtain ⟨r, run, settled⟩ := (contained Platform.ample () [1, 0, 1] [] rfl (by decide)).value
  have state : ((Parser.init.parse [1, 4, 0, 1, 0, 2, 0, 0, 1, 0, 1] : Prog Platform.ample _).value ()).map
      (fun r => r.1.state) = .ok .paramNameData := by decide +kernel
  rw [show [1, 4, 0, 1, 0, 2, 0, 0, 1, 0, 1] = RecordHeader.octets ⟨1, 4, 0, 1, 0, 2, 0, 0⟩ ++ [1, 0, 1] from rfl, run]
    at state
  cases settled with
  | inl finished => simp [Except.map, finished] at state
  | inr error => simp [Except.map, error] at state

/-! ## Stdin records -/

/-- **A stdin record is decoded exactly when it is padded.** -/
theorem stdin_record_decoded_iff (all : P.Succeeds) (H : RecordHeader) (type : H.type = typeStdin)
    (content : 1 ≤ H.contentLength) {x pad more : List UInt8} (full : x.length = H.contentLength)
    (padding : pad.length = H.paddingLength.toNat) (some : more ≠ []) {chunks : List (List UInt8)}
    (stream : chunks.flatten = H.octets ++ (x ++ (pad ++ more))) (s : P.State) :
    Yields (Parser.init.parseChunks chunks : Prog P _) s (fun r =>
        r.1.state = .finished ∧ r.2 = 8 + H.contentLength + H.paddingLength.toNat ∧
        r.1.stdinStream = ⟨H.contentLength, .some (terminated x)⟩) ↔
      H.paddingLength ≠ 0 := by
  have run := ensures_record_chunks (P := P) H _ stream
  have least := List.length_pos_iff.mpr some
  constructor
  · intro yields
    obtain ⟨⟨p, n⟩, ⟨k, bound, count, body, -⟩, finished, -⟩ := yields.and run
    obtain ⟨-, -, -, -, -, padded, -⟩ := (body.toStdin type (by omega)).of_finished finished
    exact padded
  · intro padded
    refine (run.mono ?_).yields s
    rintro ⟨p, n⟩ ⟨k, bound, count, body, settled⟩
    have stdin := body.toStdin type (by omega)
    have length := stdin.length_le all padded
    rw [List.length_take, Nat.min_eq_left bound] at length
    have finished := stdin.finished_of_settled all padded (settled (by simp; omega))
    obtain ⟨xc, pad', split, full', padding', -, data⟩ := stdin.of_finished finished
    have total := congrArg List.length split
    rw [List.length_take, Nat.min_eq_left bound, List.length_append] at total
    rw [List.take_append, List.take_of_length_le (by omega)] at split
    obtain ⟨rfl, -⟩ := List.append_inj split (by omega)
    exact ⟨finished, by omega, data⟩

theorem stdin_record_decoded_iff_padded :
    Yields (Parser.init.parseChunks [[1, 5, 0, 1, 0, 1, 1, 0, 65], [0, 1]] : Prog Platform.ample _) () (fun r =>
        r.1.state = .finished ∧ r.2 = 8 + 1 + 1 ∧ r.1.stdinStream = ⟨1, some (terminated [65])⟩) ↔ (1 : UInt8) ≠ 0 :=
  stdin_record_decoded_iff Platform.ample_succeeds ⟨1, 5, 0, 1, 0, 1, 1, 0⟩ rfl (by decide) (x := [65]) rfl
    (show [0].length = _ from rfl) (show [1] ≠ [] by decide) rfl ()

/-- An unpadded record of one octet, followed by the first octet of the next record. -/
theorem stdin_record_unpadded :
    ¬Yields (Parser.init.parseChunks [[1, 5, 0, 1, 0, 1, 0, 0, 65, 1]] : Prog Platform.ample _) () fun r =>
      r.1.state = .finished ∧ r.2 = 8 + 1 + 0 ∧ r.1.stdinStream = ⟨1, some (terminated [65])⟩ := by
  intro decoded
  obtain ⟨r, run, finished, -⟩ := decoded.value
  have state : ((Parser.init.parseChunks [[1, 5, 0, 1, 0, 1, 0, 0, 65, 1]] : Prog Platform.ample _).value ()).map
      (fun r => r.1.state) = .ok .error := by decide +kernel
  rw [run] at state
  simp [Except.map, finished] at state

/-! ## All records -/

theorem Body.of_empty {x : List UInt8} {p : Parser} (h : Body P H x p) (none : H.contentLength = 0) :
    x = [] ∧ p.state = .finished := by
  cases h with
  | empty _ => exact ⟨rfl, rfl⟩
  | begin content _ _ => exact absurd none content
  | params content _ _ => exact absurd none content
  | stdin content _ _ => exact absurd none content
  | unknown content _ => exact absurd none content

theorem Body.of_begin {x : List UInt8} {p : Parser} (h : Body P H x p) (content : H.contentLength ≠ 0)
    (type : H.type = typeBeginRequest) : x.length ≤ 8 ∧ p = beginParser H x := by
  cases h with
  | empty none => exact absurd none content
  | begin _ _ fits => exact ⟨fits, rfl⟩
  | params _ params _ => exact absurd (type.symm.trans params) (by decide)
  | stdin _ stdin _ => exact absurd (type.symm.trans stdin) (by decide)
  | unknown _ unknown =>
    rw [type] at unknown
    cases unknown

/-- A finished parser has the header that it read. -/
theorem Body.header_of_finished {x : List UInt8} {p : Parser} (h : Body P H x p) (finished : p.state = .finished) :
    p.messageHeader = H.message := by
  cases h with
  | empty none => rfl
  | begin content type fits => rfl
  | params content type h =>
    cases h with
    | start => rfl
    | pair read here inside => exact absurd (Or.inl finished) here.open
    | padding read full some fits => rfl
    | finished read full all => rfl
    | refused memory stuck =>
      rw [stuck] at finished
      cases finished
  | stdin content type h =>
    cases h with
    | start => rfl
    | data some fits => rfl
    | padding full some fits => rfl
    | finished full all padded => rfl
    | unpadded full none stuck =>
      rw [stuck] at finished
      cases finished
    | refused memory stuck =>
      rw [stuck] at finished
      cases finished
  | unknown content type => rfl

theorem beginState_finished : ∀ n ≤ 8, beginState n = .finished ↔ n = 8 := by decide

theorem beginState_ne_error : ∀ n ≤ 8, beginState n ≠ .error := by decide

/-- In the other records a finished parser has consumed everything. -/
theorem Body.length_of_finished {x : List UInt8} {p : Parser} (h : Body P H x p) (content : H.contentLength ≠ 0)
    (type : H.type ≠ typeBeginRequest) (finished : p.state = .finished) :
    x.length = H.contentLength + H.paddingLength.toNat := by
  cases h with
  | empty none => exact absurd none content
  | begin _ begin _ => exact absurd begin type
  | params _ _ h => exact h.length_of_finished finished
  | stdin _ _ h =>
    obtain ⟨xc, pad, rfl, full, padding, -⟩ := h.of_finished finished
    rw [List.length_append, full, padding]
  | unknown _ _ => cases finished

/-- **Record boundaries.** A finished parser has consumed the content and the
padding, except that padding behind empty content is left, and that a begin
record is taken to have eight octets. -/
theorem record_boundary_iff (H : RecordHeader) (z : List UInt8) (s : P.State) :
    Yields (Parser.init.parse (H.octets ++ z) : Prog P _) s (fun r =>
        r.1.state = .finished → r.2 = 8 + H.contentLength + H.paddingLength.toNat) ↔
      (H.contentLength = 0 → H.paddingLength = 0) ∧
      (H.type = typeBeginRequest → H.contentLength ≠ 0 → 8 ≤ z.length →
        H.contentLength + H.paddingLength.toNat = 8) := by
  have run := ensures_record (P := P) H z
  have taken : ∀ {k : Nat}, k ≤ z.length → (z.take k).length = k := by
    intro k bound
    rw [List.length_take, Nat.min_eq_left bound]
  constructor
  · intro yields
    obtain ⟨⟨p, n⟩, ⟨k, bound, count, body, settled⟩, size⟩ := yields.and run
    refine ⟨fun none => ?_, fun type content room => ?_⟩
    · obtain ⟨nothing, finished⟩ := body.of_empty none
      have := size finished
      have := taken bound
      rw [nothing, List.length_nil] at this
      exact UInt8.toNat_inj.mp (by simp; omega)
    · obtain ⟨fits, rfl⟩ := body.of_begin content type
      rw [taken bound] at fits
      have eight : k = 8 := by
        by_cases short : k < z.length
        · rcases settled short with finished | error
          · rw [← taken bound]
            exact (beginState_finished _ (by rwa [taken bound])).mp finished
          · exact absurd error (beginState_ne_error _ (by rwa [taken bound]))
        · omega
      have finished : (beginParser H (z.take k)).state = .finished :=
        (beginState_finished _ (by rwa [taken bound])).mpr (by rw [taken bound, eight])
      have := size finished
      omega
  · rintro ⟨empty, begin⟩
    refine (run.mono ?_).yields s
    rintro ⟨p, n⟩ ⟨k, bound, count, body, settled⟩ finished
    by_cases none : H.contentLength = 0
    · obtain ⟨nothing, -⟩ := body.of_empty none
      have := taken bound
      rw [nothing, List.length_nil] at this
      rw [empty none, none]
      simp only [UInt8.toNat_zero]
      omega
    · by_cases type : H.type = typeBeginRequest
      · obtain ⟨fits, rfl⟩ := body.of_begin none type
        have eight := (beginState_finished _ fits).mp finished
        rw [taken bound] at eight
        have := begin type none (by omega)
        omega
      · have := body.length_of_finished none type finished
        rw [taken bound] at this
        omega

/-- Padding behind empty content is left in the stream. -/
theorem record_boundary_empty_padded :
    ¬Yields (Parser.init.parse [1, 4, 0, 1, 0, 0, 1, 0, 0] : Prog Platform.ample _) () fun r =>
      r.1.state = .finished → r.2 = 8 + 0 + 1 := by
  intro kept
  obtain ⟨r, run, size⟩ := kept.value
  have outcome : ((Parser.init.parse [1, 4, 0, 1, 0, 0, 1, 0, 0] : Prog Platform.ample _).value ()).map
      (fun r => (r.1.state, r.2)) = .ok (.finished, 8) := by decide +kernel
  rw [run] at outcome
  simp only [Except.map, Except.ok.injEq, Prod.mk.injEq] at outcome
  have := size outcome.1
  omega

end Cpptrw.Fcgi
