import Cpptrw.Fcgi.Record

/-!
# Memory safety of the parser

Stores and loads are checked in the model, so that a parse without a fault has
made none outside a region or through a missing one. What is left to say is
what the regions and the counter are at any time, and that the regions of a
finished params record have been written completely; both are in `At`.
-/

namespace Cpptrw.Fcgi

open Lib Lib.Prog

variable {P : Platform} {H : RecordHeader}

/-- A region for `length` octets and a terminator, if there is one. -/
def Fits (region : Option Buffer) (length : Nat) : Prop := ∀ b ∈ region, b.length = length + 1

/-- A region whose `length` octets and terminator have been written. -/
def Written (region : Option Buffer) (length : Nat) : Prop := ∃ xs, region = some (terminated xs) ∧ xs.length = length

theorem Written.fits {region : Option Buffer} {length : Nat} (h : Written region length) : Fits region length := by
  obtain ⟨xs, rfl, rfl⟩ := h
  rintro b ⟨⟩
  simp [terminated]

theorem fits_none (length : Nat) : Fits none length := by
  rintro b ⟨⟩

theorem fits_filled {xs : List UInt8} {length : Nat} (h : xs.length ≤ length) :
    Fits (some (Buffer.filled xs (length + 1))) length := by
  rintro b ⟨⟩
  exact Buffer.length_filled (by omega)

/-- The regions and the counter of a parser, wherever it stopped. A parser in
the error state makes no more stores. -/
structure MemorySafe (p : Parser) : Prop where
  params : p.state ≠ .error → ∀ param ∈ p.params, Fits param.name param.nameLength ∧ Fits param.value param.valueLength
  stdin : p.state ≠ .error → Fits p.stdinStream.data p.stdinStream.length
  nameCounter : p.state = .paramNameData →
    ∃ param, p.last = .ok param ∧ (param.name ≠ none → p.readCounter ≤ param.nameLength)
  valueCounter : p.state = .paramValueData →
    ∃ param, p.last = .ok param ∧ (param.value ≠ none → p.readCounter ≤ param.valueLength)
  stdinCounter : p.state = .stdinData → p.stdinStream.data ≠ none → p.readCounter ≤ p.stdinStream.length
  complete : p.state = .finished → p.messageHeader.type = typeParams → p.messageHeader.contentLength ≠ 0 →
    ∀ param ∈ p.params, Written param.name param.nameLength ∧ Written param.value param.valueLength

theorem MemorySafe.of_error {p : Parser} (stuck : p.state = .error) : MemorySafe p := by
  constructor <;> simp [stuck]

/-- A parser that has not asked for memory. -/
theorem MemorySafe.of_none {p : Parser} (params : p.params = []) (stdin : p.stdinStream.data = none)
    (state : p.state ≠ .paramNameData ∧ p.state ≠ .paramValueData) : MemorySafe p where
  params _ := by simp [params]
  stdin _ := by
    rw [stdin]
    exact fits_none _
  nameCounter h := absurd h state.1
  valueCounter h := absurd h state.2
  stdinCounter _ h := absurd stdin h
  complete _ _ _ := by simp [params]

theorem stored_written {done : List Pair} {param : MsgParam} (h : param ∈ done.map Pair.stored) :
    Written param.name param.nameLength ∧ Written param.value param.valueLength := by
  obtain ⟨q, -, rfl⟩ := List.mem_map.mp h
  exact ⟨⟨q.name, rfl, rfl⟩, ⟨q.value, rfl, rfl⟩⟩

theorem InPair.memorySafe {done : List Pair} {size : Nat} {x : List UInt8} {p : Parser} (h : InPair H done size x p) :
    MemorySafe p := by
  have pairs : ∀ {param : MsgParam}, Fits param.name param.nameLength → Fits param.value param.valueLength →
      ∀ param' ∈ done.map Pair.stored ++ [param], Fits param'.name param'.nameLength ∧ Fits param'.value param'.valueLength := by
    intro param name value param' mem
    rcases List.mem_append.mp mem with mem | mem
    · exact ⟨(stored_written mem).1.fits, (stored_written mem).2.fits⟩
    · rw [List.mem_singleton.mp mem]
      exact ⟨name, value⟩
  cases h with
  | lengths name value =>
    exact
      { params := fun _ => pairs (fits_none _) (fits_none _)
        stdin := fun _ => fits_none _
        nameCounter := fun _ => ⟨_, last_pairAt .., fun h => absurd rfl h⟩
        valueCounter := nofun
        stdinCounter := nofun
        complete := nofun }
  | name name value some fits =>
    exact
      { params := fun _ => pairs (fits_filled fits) (fits_none _)
        stdin := fun _ => fits_none _
        nameCounter := fun _ => ⟨_, last_pairAt .., fun _ => Nat.sub_le _ _⟩
        valueCounter := nofun
        stdinCounter := nofun
        complete := nofun }
  | @value _ _ _ xs name value _ some fits =>
    exact
      { params := fun _ => pairs (Written.fits ⟨xs, rfl, rfl⟩) (fits_filled fits)
        stdin := fun _ => fits_none _
        nameCounter := nofun
        valueCounter := fun _ => ⟨_, last_pairAt .., fun _ => Nat.sub_le _ _⟩
        stdinCounter := nofun
        complete := nofun }
  | _ =>
    exact
      { params := fun _ => pairs (fits_none _) (fits_none _)
        stdin := fun _ => fits_none _
        nameCounter := nofun
        valueCounter := nofun
        stdinCounter := nofun
        complete := nofun }

/-- Behind the last pair. -/
theorem memorySafe_paramsAt {done : List Pair} {state : ParserState} {counter size : Nat}
    (after : state = .paramPadding ∨ state = .finished) :
    MemorySafe (paramsAt H (done.map Pair.stored) state counter size) where
  params _ _ mem := ⟨(stored_written mem).1.fits, (stored_written mem).2.fits⟩
  stdin _ := fits_none _
  nameCounter h := by rcases after with rfl | rfl <;> cases h
  valueCounter h := by rcases after with rfl | rfl <;> cases h
  stdinCounter h := by rcases after with rfl | rfl <;> cases h
  complete _ _ _ _ mem := stored_written mem

theorem Params.memorySafe {x : List UInt8} {p : Parser} (h : Params P H x p) : MemorySafe p := by
  cases h with
  | start => exact .of_none rfl rfl ⟨nofun, nofun⟩
  | pair read here inside => exact here.memorySafe
  | padding read full some fits => exact memorySafe_paramsAt (Or.inl rfl)
  | finished read full all => exact memorySafe_paramsAt (Or.inr rfl)
  | refused memory stuck => exact .of_error stuck

/-- A parser with a region for the content of a stdin record. -/
theorem memorySafe_stdinAt {b : Buffer} {state : ParserState} {counter : Nat} (fits : b.length = H.contentLength + 1)
    (counted : state = .stdinData → counter ≤ H.contentLength)
    (here : state = .stdinData ∨ state = .stdinPadding ∨ state = .finished) : MemorySafe (stdinAt H b state counter) where
  params _ _ mem := by cases mem
  stdin _ := by
    rintro _ ⟨⟩
    exact fits
  nameCounter h := by rcases here with rfl | rfl | rfl <;> cases h
  valueCounter h := by rcases here with rfl | rfl | rfl <;> cases h
  stdinCounter h _ := counted h
  complete _ _ _ _ mem := by cases mem

theorem Stdin.memorySafe {x : List UInt8} {p : Parser} (h : Stdin P H x p) : MemorySafe p := by
  have full_fits : ∀ {xc : List UInt8}, xc.length = H.contentLength → (terminated xc).length = H.contentLength + 1 := by
    intro xc full
    simp [terminated, full]
  cases h with
  | start => exact .of_none rfl rfl ⟨(fun name => by cases name), (fun value => by cases value)⟩
  | data some fits =>
    exact memorySafe_stdinAt (Buffer.length_filled (by omega)) (fun _ => Nat.sub_le _ _) (Or.inl rfl)
  | padding full some fits => exact memorySafe_stdinAt (full_fits full) (fun data => by cases data) (Or.inr (Or.inl rfl))
  | finished full all padded => exact memorySafe_stdinAt (full_fits full) (fun data => by cases data) (Or.inr (Or.inr rfl))
  | unpadded full none stuck => exact .of_error stuck
  | refused memory stuck => exact .of_error stuck

theorem Body.memorySafe {x : List UInt8} {p : Parser} (h : Body P H x p) : MemorySafe p := by
  cases h with
  | empty none => exact .of_none rfl rfl ⟨nofun, nofun⟩
  | begin content type fits =>
    have other : ∀ n ≤ 8, beginState n ≠ .paramNameData ∧ beginState n ≠ .paramValueData := by decide
    exact .of_none rfl rfl (other _ fits)
  | params _ _ h => exact h.memorySafe
  | stdin _ _ h => exact h.memorySafe
  | unknown _ _ => exact .of_error rfl

theorem At.memorySafe {seen : List UInt8} {p : Parser} (h : At P seen p) : MemorySafe p := by
  cases h with
  | header short =>
    match seen, short with
    | [], _ | [_], _ | [_, _], _ | [_, _, _], _ | [_, _, _, _], _ | [_, _, _, _, _], _ | [_, _, _, _, _, _], _
    | [_, _, _, _, _, _, _], _ => exact .of_none rfl rfl ⟨nofun, nofun⟩
  | body h => exact h.memorySafe

/-- **The parser is memory safe**, on any stream, however it is cut into
pieces and whatever the allocator refuses: no store or load faults, and where
the parser stops its regions have the sizes it relies on. -/
theorem parser_memory_safe (chunks : List (List UInt8)) :
    Ensures (Parser.init.parseChunks chunks : Prog P _) fun r => MemorySafe r.1 := by
  rw [Parser.parseChunks_eq]
  exact (ensures_parse chunks.flatten).mono fun r h => h.2.1.memorySafe

end Cpptrw.Fcgi
