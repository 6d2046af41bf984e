import Mathlib.Algebra.Ring.Nat
import Mathlib.Data.List.Pairwise
import Mathlib.Order.Interval.Finset.Nat
import Mathlib.Tactic.Common

/-!
# Regions of memory

A region is a start and a size. Two regions are disjoint if one ends where the
other begins or before, so an empty region can lie on the edge of another, but
not in its middle. Memory has an octet at every address, and what is written to
one region is not seen in a region disjoint from it.
-/

namespace Cpptrw.Lib

/-- A range of addresses. -/
structure Region where
  start : Nat
  size : Nat
  deriving DecidableEq, Repr

namespace Region

/-- One of them ends before the other begins. -/
def Disjoint (r s : Region) : Prop := r.start + r.size ≤ s.start ∨ s.start + s.size ≤ r.start

/-- The first lies in the second. -/
def Within (r s : Region) : Prop := s.start ≤ r.start ∧ r.start + r.size ≤ s.start + s.size

variable {r s t r' s' : Region}

theorem Disjoint.symm (h : r.Disjoint s) : s.Disjoint r := Or.symm h

instance : Std.Symm Disjoint := ⟨fun _ _ => Disjoint.symm⟩

theorem Within.refl (r : Region) : r.Within r := ⟨Nat.le_refl _, Nat.le_refl _⟩

theorem Within.trans (h : r.Within s) (h' : s.Within t) : r.Within t :=
  ⟨Nat.le_trans h'.1 h.1, Nat.le_trans h.2 h'.2⟩

/-- Parts of disjoint regions are disjoint. -/
theorem Disjoint.mono (h : r.Disjoint s) (hr : r'.Within r) (hs : s'.Within s) : r'.Disjoint s' := by
  unfold Disjoint Within at *
  omega

instance (r s : Region) : Decidable (r.Disjoint s) := inferInstanceAs (Decidable (_ ∨ _))

instance (r s : Region) : Decidable (r.Within s) := inferInstanceAs (Decidable (_ ∧ _))

/-- The addresses in a region. -/
def cells (r : Region) : Finset Nat := Finset.Ico r.start (r.start + r.size)

@[simp] theorem card_cells (r : Region) : r.cells.card = r.size := by simp [cells]

theorem Disjoint.not_mem_cells (h : r.Disjoint s) {address : Nat} (inside : address ∈ r.cells) : address ∉ s.cells := by
  unfold Region.Disjoint at h
  simp only [cells, Finset.mem_Ico] at inside ⊢
  omega

/-- Disjoint regions are no larger together than the memory that they are in. -/
theorem sum_size_le {regions : List Region} (disjoint : regions.Pairwise Disjoint) {bound : Nat}
    (within : ∀ r ∈ regions, r.start + r.size ≤ bound) : (regions.map size).sum ≤ bound := by
  -- The cells of all the regions, and that there are as many as the sizes say.
  obtain ⟨all, count, covered⟩ : ∃ all : Finset Nat, all.card = (regions.map size).sum ∧ ∀ address ∈ all, ∃ r ∈ regions, address ∈ r.cells := by
    clear within
    induction regions with
    | nil => exact ⟨∅, by simp, by simp⟩
    | cons r rest ih =>
      obtain ⟨apart, disjoint⟩ := List.pairwise_cons.mp disjoint
      obtain ⟨others, count, covered⟩ := ih disjoint
      refine ⟨r.cells ∪ others, ?_, ?_⟩
      · rw [Finset.card_union_of_disjoint, card_cells, count, List.map_cons, List.sum_cons]
        rw [Finset.disjoint_left]
        intro address inside inside'
        obtain ⟨s, there, here⟩ := covered address inside'
        exact (apart s there).not_mem_cells inside here
      · intro address there
        rcases Finset.mem_union.mp there with here | there
        · exact ⟨r, List.mem_cons_self, here⟩
        · obtain ⟨s, there, here⟩ := covered address there
          exact ⟨s, List.mem_cons_of_mem _ there, here⟩
  rw [← count, ← Finset.card_range bound]
  apply Finset.card_le_card
  intro address there
  obtain ⟨r, there, here⟩ := covered address there
  have := within r there
  rw [cells, Finset.mem_Ico] at here
  rw [Finset.mem_range]
  omega

end Region

/-- What is at every address. -/
abbrev Memory := Nat → UInt8

namespace Memory

/-- The octets of a region. -/
def read (m : Memory) (start size : Nat) : List UInt8 := (List.range size).map fun i => m (start + i)

def write (m : Memory) (start : Nat) (octets : List UInt8) : Memory := fun address =>
  if start ≤ address ∧ address < start + octets.length then octets.getD (address - start) 0 else m address

/-- `memcpy`, which is not for regions that overlap. -/
def copy (m : Memory) (target source size : Nat) : Option Memory :=
  if (⟨target, size⟩ : Region).Disjoint ⟨source, size⟩ then some (m.write target (m.read source size)) else none

/-- `memset`. -/
def fill (m : Memory) (start : Nat) (octet : UInt8) (size : Nat) : Memory := m.write start (List.replicate size octet)

variable {m : Memory} {start size : Nat} {octets : List UInt8}

@[simp] theorem length_read (m : Memory) (start size : Nat) : (m.read start size).length = size := by
  simp [read]

theorem read_append (m : Memory) (start size size' : Nat) :
    m.read start (size + size') = m.read start size ++ m.read (start + size) size' := by
  simp [read, List.range_add, Nat.add_assoc]

theorem read_write_self (m : Memory) (start : Nat) (octets : List UInt8) : (m.write start octets).read start octets.length = octets := by
  apply List.ext_getElem (length_read ..)
  intro i _ there
  simp [read, write, there]

/-- Reading a part of what was written. -/
theorem read_write_inside {offset : Nat} (h : offset + size ≤ octets.length) :
    (m.write start octets).read (start + offset) size = (octets.drop offset).take size := by
  apply List.ext_getElem
  · rw [length_read, List.length_take, List.length_drop]
    omega
  · intro i there _
    rw [length_read] at there
    have inside : offset + i < octets.length := by omega
    simp [read, write, inside, Nat.add_assoc]

/-- Two memories that agree on a region. -/
theorem read_congr {m' : Memory} (same : ∀ address, start ≤ address → address < start + size → m' address = m address) :
    m'.read start size = m.read start size := by
  apply List.map_congr_left
  intro i there
  have := List.mem_range.mp there
  exact same _ (by omega) (by omega)

theorem write_outside {address : Nat} (outside : address < start ∨ start + octets.length ≤ address) :
    m.write start octets address = m address := by
  rw [write, if_neg (by omega)]

theorem read_write_disjoint {r : Region} (h : r.Disjoint ⟨start, octets.length⟩) :
    (m.write start octets).read r.start r.size = m.read r.start r.size := by
  unfold Region.Disjoint at h
  apply read_congr
  intro address low high
  apply write_outside
  dsimp only at h
  omega

end Memory

end Cpptrw.Lib
