import Cpptrw.Lib.Prog
import Cpptrw.Lib.Word

/-!
# What a program obtains

`P.metered` is the platform `P` with a count of the octets that it has handed
out. They are distinct octets of memory, so all of them together have addresses
of 64 bits, and a request for more than the addresses that are left is refused.
-/

namespace Cpptrw.Lib

variable {P : Platform}

/-- The platform on which the octets of every request that is met are counted. -/
def Platform.metered (P : Platform) : Platform where
  State := P.State × Fin (2 ^ 64)
  allocate s n :=
    if room : s.2 + n < 2 ^ 64 then
      ((P.allocate s.1 n).1, (P.allocate s.1 n).2, if (P.allocate s.1 n).1 then ⟨s.2 + n, room⟩ else s.2)
    else (false, s)
  rewind s := (P.rewind s.1, 0)
  writev s buffers := ((P.writev s.1 buffers).1, (P.writev s.1 buffers).2, s.2)

namespace Platform

/-- The platform in this state, with nothing handed out. -/
def unmetered (s : P.State) : P.metered.State := (s, 0)

/-- The octets that have been obtained. -/
def obtained (s : P.metered.State) : Nat := (Prod.snd s : Fin (2 ^ 64))

theorem obtained_lt (s : P.metered.State) : obtained s < 2 ^ 64 := Fin.isLt _

theorem obtained_allocate (s : P.metered.State) (n : Nat) :
    obtained (P.metered.allocate s n).2 = if (P.metered.allocate s n).1 then obtained s + n else obtained s := by
  obtain ⟨state, count⟩ := s
  simp only [metered, obtained]
  by_cases room : (count : Nat) + n < 2 ^ 64
  · simp only [room, dite_true]
    split <;> rfl
  · simp only [room, dite_false]
    rfl

theorem meets_singleton (P : Platform) (n : Nat) (s : P.State) : P.meets [n] s = P.allocate s n := by
  rw [meets]
  split
  · rename_i met
    exact Prod.ext met.symm rfl
  · rfl

/-- What is met has addresses. -/
theorem lt_of_met {s : P.metered.State} {n : Nat} (met : (P.metered.allocate s n).1 = true) : obtained s + n < 2 ^ 64 := by
  have room := obtained_lt (P.metered.allocate s n).2
  rwa [obtained_allocate, if_pos met] at room

end Platform

end Cpptrw.Lib
