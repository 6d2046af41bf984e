import Cpptrw.Lib.Prog

/-!
# Regions of memory

A region is the list of its octets, each unknown (`none`) until the program has
written it. Loads and stores are checked: outside the region, or a load of an
octet that was never written, is a fault. `filled xs n` is the shape every
region here takes while it is filled from the front.
-/

namespace Cpptrw.Lib

/-- What a computation that returns went through. -/
theorem exists_of_bind_ok {α β : Type} {m : Except Fault α} {f : α → Except Fault β} {y : β} (h : m >>= f = .ok y) :
    ∃ x, m = .ok x ∧ f x = .ok y := by
  cases m with
  | error e => cases h
  | ok x => exact ⟨x, rfl, h⟩

abbrev Buffer := List (Option UInt8)

namespace Buffer

/-- A region of `n` octets as the allocator hands it out. -/
def fresh (n : Nat) : Buffer := List.replicate n none

def store (b : Buffer) (i : Nat) (octet : UInt8) : Except Fault Buffer :=
  if i < b.length then .ok (b.set i (some octet)) else .error .outOfBounds

def load (b : Buffer) (i : Nat) : Except Fault UInt8 :=
  match b[i]? with
  | none => .error .outOfBounds
  | some none => .error .uninitialised
  | some (some octet) => .ok octet

/-- `memcpy` of some octets to a place in a region. -/
def copy (b : Buffer) (i : Nat) (octets : List UInt8) : Except Fault Buffer :=
  if i + octets.length ≤ b.length then .ok (b.take i ++ octets.map some ++ b.drop (i + octets.length))
  else .error .outOfBounds

/-- Some octets are replaced. -/
def write (b : Buffer) (i : Nat) (octets : List UInt8) : Buffer := b.take i ++ octets.map some ++ b.drop (i + octets.length)

/-- The first `n` octets of a region. -/
def read : Buffer → Nat → Except Fault (List UInt8)
  | _, 0 => .ok []
  | [], _ + 1 => .error .outOfBounds
  | none :: _, _ + 1 => .error .uninitialised
  | some octet :: b, n + 1 => (read b n).map (octet :: ·)

/-- A region of `n` octets whose first ones have been written. -/
def filled (xs : List UInt8) (n : Nat) : Buffer := xs.map some ++ List.replicate (n - xs.length) none

/-- An access to a region does not depend on what is behind it. -/
theorem load_append {b : Buffer} {i : Nat} {octet : UInt8} (h : load b i = .ok octet) (behind : Buffer) :
    load (b ++ behind) i = .ok octet := by
  unfold load at h ⊢
  cases cell : b[i]? with
  | none =>
    rw [cell] at h
    cases h
  | some old =>
    rw [List.getElem?_append_left (List.getElem?_eq_some_iff.mp cell).1]
    exact h

theorem store_append {b b' : Buffer} {i : Nat} {octet : UInt8} (h : store b i octet = .ok b') (behind : Buffer) :
    store (b ++ behind) i octet = .ok (b' ++ behind) := by
  unfold store at h ⊢
  split at h
  · rename_i inside
    cases h
    rw [if_pos (by rw [List.length_append]; omega), List.set_append_left _ _ inside]
  · cases h

/-- A store at the place of a given cell. -/
theorem store_at (front : Buffer) (old : Option UInt8) (behind : Buffer) (octet : UInt8) :
    store (front ++ old :: behind) front.length octet = .ok (front ++ some octet :: behind) := by
  rw [store, if_pos (by simp), List.set_append_right _ _ (Nat.le_refl _), Nat.sub_self, List.set_cons_zero]

/-- A copy to the end of a given front. -/
theorem copy_behind (front behind : Buffer) (octets : List UInt8) (room : octets.length ≤ behind.length) :
    copy (front ++ behind) front.length octets = .ok (front ++ octets.map some ++ behind.drop octets.length) := by
  rw [copy, if_pos (by rw [List.length_append]; omega), List.take_left, List.drop_length_add_append]

theorem write_nil (b : Buffer) (i : Nat) : b.write i [] = b := by simp [write]

/-- All of a region is replaced. -/
theorem write_whole {b : Buffer} {octets : List UInt8} (same : b.length = octets.length) : b.write 0 octets = octets.map some := by
  simp [write, same]

theorem length_write {b : Buffer} {i : Nat} {octets : List UInt8} (inside : i + octets.length ≤ b.length) :
    (b.write i octets).length = b.length := by
  simp only [write, List.length_append, List.length_take, List.length_map, List.length_drop]
  omega

/-- What is at a place behind a replacement. -/
theorem getElem?_write {b : Buffer} {i : Nat} {octets : List UInt8} (inside : i + octets.length ≤ b.length) (j : Nat) :
    (b.write i octets)[j]? = if i ≤ j ∧ j < i + octets.length then octets[j - i]?.map some else b[j]? := by
  have front : (b.take i).length = i := by
    rw [List.length_take]
    omega
  rw [write, List.append_assoc]
  by_cases before : j < i
  · rw [if_neg (by omega), List.getElem?_append_left (by omega), List.getElem?_take_of_lt before]
  · rw [List.getElem?_append_right (by omega), front]
    by_cases within : j < i + octets.length
    · rw [if_pos (by omega), List.getElem?_append_left (by rw [List.length_map]; omega), List.getElem?_map]
    · rw [if_neg (by omega), List.getElem?_append_right (by rw [List.length_map]; omega), List.getElem?_drop, List.length_map]
      congr 1
      omega

/-- A store replaces one octet. -/
theorem write_of_store {b b' : Buffer} {i : Nat} {octet : UInt8} (h : b.store i octet = .ok b') : i < b.length ∧ b' = b.write i [octet] := by
  unfold store at h
  split at h
  · rename_i inside
    cases h
    refine ⟨inside, ?_⟩
    rw [List.set_eq_take_append_cons_drop, if_pos inside, write]
    simp
  · cases h

/-- A replacement behind a front. -/
theorem write_behind (front : Buffer) {old : Buffer} (back : Buffer) {octets : List UInt8} (same : old.length = octets.length) :
    write (front ++ (old ++ back)) front.length octets = front ++ (octets.map some ++ back) := by
  rw [write, List.take_left, ← same, ← List.append_assoc front old back, ← List.length_append, List.drop_left, List.append_assoc]

theorem fresh_eq (n : Nat) : fresh n = filled [] n := rfl

theorem length_filled {xs : List UInt8} {n : Nat} (h : xs.length ≤ n) : (filled xs n).length = n := by
  simp only [filled, List.length_append, List.length_map, List.length_replicate]
  omega

theorem filled_full (xs : List UInt8) : filled xs xs.length = xs.map some := by
  simp [filled]

/-- Writing right behind the written octets. -/
theorem store_filled {xs : List UInt8} {n : Nat} (octet : UInt8) (room : xs.length < n) :
    store (filled xs n) xs.length octet = .ok (filled (xs ++ [octet]) n) := by
  have more : n - xs.length = (n - (xs.length + 1)) + 1 := by omega
  rw [store, if_pos (by rw [length_filled (by omega)]; exact room)]
  simp only [filled, List.map_append, List.map_cons, List.map_nil, List.length_append, List.length_cons,
    List.length_nil, more, List.replicate_succ, List.append_assoc, List.singleton_append, Nat.zero_add]
  congr 1
  rw [List.set_append_right _ _ (by simp)]
  simp

theorem read_map_append (xs : List UInt8) (rest : Buffer) : read (xs.map some ++ rest) xs.length = .ok xs := by
  induction xs with
  | nil => cases rest <;> rfl
  | cons x xs ih => simp only [List.map_cons, List.cons_append, List.length_cons, read, ih]; rfl

/-- What is read was written in front of the rest. -/
theorem exists_of_read : ∀ {b : Buffer} {n : Nat} {xs : List UInt8}, b.read n = .ok xs → xs.length = n ∧ ∃ rest, b = xs.map some ++ rest
  | b, 0, xs, h => by
    rw [read] at h
    cases h
    exact ⟨rfl, b, rfl⟩
  | some octet :: b, n + 1, xs, h => by
    rw [read] at h
    cases tail : read b n with
    | error e =>
      rw [tail] at h
      cases h
    | ok ys =>
      rw [tail] at h
      cases h
      obtain ⟨length, rest, rfl⟩ := exists_of_read tail
      exact ⟨congrArg (· + 1) length, rest, rfl⟩

end Buffer

end Cpptrw.Lib
