import Mathlib.Data.Finset.Card
import Mathlib.Data.Finset.Dedup

/-!
# The map that a sequence of assignments makes

`lastValue assignments key` is what the last assignment to `key` put there.
`Holding` relates a list of entries, each with a key and a value, to the
assignments that led to it: one entry for every key, with the last value. It
does not depend on the order of the entries, and it is kept when an entry is
overwritten or a new one comes in.
-/

namespace Cpptrw.Lib

variable {K V ε : Type} [DecidableEq K]

def lastValue (assignments : List (K × V)) (key : K) : Option V :=
  (assignments.reverse.find? fun assignment => assignment.1 = key).map Prod.snd

@[simp] theorem lastValue_nil (key : K) : lastValue ([] : List (K × V)) key = none := rfl

theorem lastValue_snoc (assignments : List (K × V)) (key key' : K) (value : V) :
    lastValue (assignments ++ [(key', value)]) key = if key' = key then some value else lastValue assignments key := by
  unfold lastValue
  rw [List.reverse_append, List.reverse_singleton, List.singleton_append, List.find?_cons]
  by_cases same : key' = key <;> simp [same]

/-- Later assignments come first. -/
theorem lastValue_append (assignments assignments' : List (K × V)) (key : K) :
    lastValue (assignments ++ assignments') key = (lastValue assignments' key).or (lastValue assignments key) := by
  simp [lastValue, List.find?_append, Option.map_or]

theorem lastValue_map {W : Type} (f : V → W) (assignments : List (K × V)) (key : K) :
    lastValue (assignments.map fun assignment => (assignment.1, f assignment.2)) key = (lastValue assignments key).map f := by
  simp [lastValue, ← List.map_reverse, List.find?_map, Function.comp_def]

/-- A key has a value when it has been assigned one. -/
theorem lastValue_isSome (assignments : List (K × V)) (key : K) :
    (lastValue assignments key).isSome ↔ key ∈ assignments.map Prod.fst := by
  simp [lastValue]

theorem lastValue_eq_none {assignments : List (K × V)} {key : K} (missing : key ∉ assignments.map Prod.fst) :
    lastValue assignments key = none := by
  rwa [← lastValue_isSome, Bool.not_eq_true, Option.isSome_eq_false_iff, Option.isNone_iff_eq_none] at missing

theorem lastValue_cons (key : K) (value : V) (assignments : List (K × V)) (other : K) :
    lastValue ((key, value) :: assignments) other = (lastValue assignments other).or (if key = other then some value else none) := by
  rw [← List.singleton_append, lastValue_append]
  by_cases same : key = other <;> simp [lastValue, same]

theorem lastValue_cons_of_mem {other : K} {assignments : List (K × V)} (mem : other ∈ assignments.map Prod.fst) (key : K) (value : V) :
    lastValue ((key, value) :: assignments) other = lastValue assignments other := by
  obtain ⟨last, found⟩ := Option.isSome_iff_exists.mp ((lastValue_isSome assignments other).mpr mem)
  rw [lastValue_cons, found, Option.some_or]

/-- An assignment is forgotten when its key is assigned again. -/
theorem lastValue_cons_again {key : K} {assignments : List (K × V)} (again : key ∈ assignments.map Prod.fst) (value : V) (other : K) :
    lastValue ((key, value) :: assignments) other = lastValue assignments other := by
  by_cases same : key = other
  · exact lastValue_cons_of_mem (same ▸ again) key value
  · rw [lastValue_cons, if_neg same, Option.or_none]

/-- The entries of a finite map after the assignments. -/
structure Holding (keyOf : ε → K) (valueOf : ε → V) (entries : List ε) (assignments : List (K × V)) : Prop where
  distinct : (entries.map keyOf).Nodup
  values : ∀ key value, lastValue assignments key = some value ↔ ∃ entry ∈ entries, keyOf entry = key ∧ valueOf entry = value

namespace Holding

variable {keyOf : ε → K} {valueOf : ε → V} {entries entries' : List ε} {assignments : List (K × V)}

theorem nil : Holding keyOf valueOf [] [] := ⟨by simp, by simp⟩

theorem perm (h : Holding keyOf valueOf entries assignments) (same : entries.Perm entries') :
    Holding keyOf valueOf entries' assignments where
  distinct := (same.map keyOf).nodup_iff.mp h.distinct
  values := fun key value => by simp only [h.values, same.mem_iff]

/-- The keys of the entries are those that have been assigned. -/
theorem keys (h : Holding keyOf valueOf entries assignments) (key : K) :
    key ∈ entries.map keyOf ↔ key ∈ assignments.map Prod.fst := by
  rw [← lastValue_isSome, Option.isSome_iff_exists, List.mem_map]
  simp only [h.values]
  exact ⟨fun ⟨entry, mem, same⟩ => ⟨_, entry, mem, same, rfl⟩, fun ⟨_, entry, mem, same, _⟩ => ⟨entry, mem, same⟩⟩

/-- There is an entry for each distinct key. -/
theorem length_eq (h : Holding keyOf valueOf entries assignments) :
    entries.length = (assignments.map Prod.fst).toFinset.card := by
  have same : (entries.map keyOf).toFinset = (assignments.map Prod.fst).toFinset := by
    ext key
    rw [List.mem_toFinset, List.mem_toFinset, h.keys]
  rw [← same, List.toFinset_card_of_nodup h.distinct, List.length_map]

/-- An assignment to a key without an entry. -/
theorem insert (h : Holding keyOf valueOf entries assignments) (entry : ε) (new : keyOf entry ∉ entries.map keyOf) :
    Holding keyOf valueOf (entries ++ [entry]) (assignments ++ [(keyOf entry, valueOf entry)]) where
  distinct :=
    ((List.perm_append_singleton entry entries).map keyOf).nodup_iff.mpr (List.nodup_cons.mpr ⟨new, h.distinct⟩)
  values := by
    intro key value
    rw [lastValue_snoc]
    split
    · rename_i same
      subst same
      constructor
      · rintro ⟨⟩
        exact ⟨entry, by simp, rfl, rfl⟩
      · rintro ⟨entry', mem, same, rfl⟩
        rcases List.mem_append.mp mem with mem | mem
        · exact absurd (List.mem_map.mpr ⟨entry', mem, same⟩) new
        · rw [List.mem_singleton.mp mem]
    · rename_i other
      simp only [h.values, List.mem_append, List.mem_singleton, or_and_right, exists_or, exists_eq_left]
      exact ⟨Or.inl, fun found => found.elim id fun same => absurd same.1 other⟩

/-- An assignment to the key of an entry overwrites it. -/
theorem replace {front back : List ε} {old : ε} (h : Holding keyOf valueOf (front ++ old :: back) assignments)
    (entry : ε) (same : keyOf entry = keyOf old) :
    Holding keyOf valueOf (front ++ entry :: back) (assignments ++ [(keyOf entry, valueOf entry)]) where
  distinct := by
    have := h.distinct
    rw [List.map_append, List.map_cons] at this ⊢
    rwa [same]
  values := by
    have only : ∀ other ∈ front ++ back, keyOf other ≠ keyOf old := by
      have distinct := h.distinct
      rw [List.map_append, List.map_cons, List.nodup_middle, List.nodup_cons, ← List.map_append] at distinct
      exact fun other mem eq => distinct.1 (List.mem_map.mpr ⟨other, mem, eq⟩)
    intro key value
    rw [lastValue_snoc]
    split
    · rename_i here
      subst here
      constructor
      · rintro ⟨⟩
        exact ⟨entry, by simp, rfl, rfl⟩
      · rintro ⟨entry', mem, eq, rfl⟩
        rcases List.mem_cons.mp (List.perm_middle.mem_iff.mp mem) with rfl | mem
        · rfl
        · exact absurd (eq.trans same) (only entry' mem)
    · rename_i other
      rw [h.values]
      constructor
      · rintro ⟨entry', mem, rfl, rfl⟩
        rcases List.mem_cons.mp (List.perm_middle.mem_iff.mp mem) with rfl | mem
        · exact absurd same other
        · exact ⟨entry', List.perm_middle.mem_iff.mpr (List.mem_cons_of_mem _ mem), rfl, rfl⟩
      · rintro ⟨entry', mem, rfl, rfl⟩
        rcases List.mem_cons.mp (List.perm_middle.mem_iff.mp mem) with rfl | mem
        · exact absurd rfl other
        · exact ⟨entry', List.perm_middle.mem_iff.mpr (List.mem_cons_of_mem _ mem), rfl, rfl⟩

/-- The first entry that answers to the key carries the last value. -/
theorem find (h : Holding keyOf valueOf entries assignments) (key : K) {answers : ε → Bool}
    (exact_ : ∀ entry ∈ entries, answers entry = true ↔ keyOf entry = key) :
    (entries.find? answers).map valueOf = lastValue assignments key := by
  cases found : entries.find? answers with
  | some entry =>
    have mem := List.mem_of_find?_eq_some found
    have same := (exact_ entry mem).mp (List.find?_some found)
    exact ((h.values key (valueOf entry)).mpr ⟨entry, mem, same, rfl⟩).symm
  | none =>
    cases value : lastValue assignments key with
    | none => rfl
    | some v =>
      obtain ⟨entry, mem, same, -⟩ := (h.values key v).mp value
      exact absurd ((exact_ entry mem).mpr same) (List.find?_eq_none.mp found entry mem)

end Holding

end Cpptrw.Lib
