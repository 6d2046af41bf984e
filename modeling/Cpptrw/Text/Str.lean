import Cpptrw.Arena.Size
import Cpptrw.Lib.Buffer

/-!
# Growing strings (`sl_string.c`)

An `sl_string` by value: its first `length` octets and its capacity. The tail
between length and capacity is zeroed by the source and read by nothing, so it
is left out; `length` is the number of octets and, being the size of something
that is in memory, does not wrap. The doubling before a growth can wrap and
does so here. Copies from a caller's buffer take the octets as an argument.
-/

namespace Cpptrw.Text

open Lib Arena

/-- A character constant. -/
def code (c : Char) : UInt8 := c.toNat.toUInt8

/-- The octets of a C string literal. -/
def octetsOf (s : String) : List UInt8 := s.toList.map code

/-- `sizeof(sl_string)`. -/
def sizeofString : Nat := 24

structure SlString where
  allocated : Nat
  octets : List UInt8
  deriving DecidableEq, Repr

namespace SlString

def length (s : SlString) : Nat := s.octets.length

/-- `(sl_string) {0}`. -/
def empty : SlString := ⟨0, []⟩

/-- `sl_string_init_with_buffer`. -/
def initWithBuffer (octets : List UInt8) : SlString := ⟨octets.length, octets⟩

/-- `sl_string_init_with_cstring`. -/
def initWithCstring (s : String) : SlString := initWithBuffer (octetsOf s)

/-- The store `string->buffer[string->length++] = octet`, taken to land. -/
def push (s : SlString) (octet : UInt8) : SlString := { s with octets := s.octets ++ [octet] }

@[simp] theorem length_push (s : SlString) (octet : UInt8) : (s.push octet).length = s.length + 1 := by
  simp [push, length]

@[simp] theorem allocated_push (s : SlString) (octet : UInt8) : (s.push octet).allocated = s.allocated := rfl

variable {P : Platform}

/-- `sl_string_create_from_buffer`. -/
def createFromBuffer (octets : List UInt8) (preallocate : Nat) : Prog P (Option SlString) := do
  if ← Prog.allocate sizeofString then
    let length := octets.length
    let size := pow2Size (if length ≤ preallocate then preallocate else wrap64 (length <<< 1))
    if ← Prog.allocate size then
      pure (some ⟨size, octets⟩)
    else
      pure none
  else
    pure none

/-- The capacity after a growth to `n` octets: `sl_arena_pow2_size(n << 1)`. -/
def grownSize (n : Nat) : Nat := pow2Size (wrap64 (n <<< 1))

/-- `sl_string_append_with_buffer`; `none` is the return value `-1`, which
leaves the string as it was. -/
def appendWithBuffer (s : SlString) (octets : List UInt8) : Prog P (Option SlString) := do
  if s.length + octets.length ≤ s.allocated then
    pure (some { s with octets := s.octets ++ octets })
  else
    let size := grownSize (s.length + octets.length)
    if ← Prog.allocate size then
      pure (some ⟨size, s.octets ++ octets⟩)
    else
      pure none

/-- `sl_string_append_with_string`. -/
def appendWithString (destination source : SlString) : Prog P (Option SlString) :=
  destination.appendWithBuffer source.octets

/-- The result of an append that is not refused. -/
def appended (s : SlString) (octets : List UInt8) : SlString :=
  if s.length + octets.length ≤ s.allocated then { s with octets := s.octets ++ octets }
  else ⟨grownSize (s.length + octets.length), s.octets ++ octets⟩

@[simp] theorem octets_appended (s : SlString) (octets : List UInt8) : (s.appended octets).octets = s.octets ++ octets := by
  unfold appended
  split <;> rfl

@[simp] theorem length_appended (s : SlString) (octets : List UInt8) :
    (s.appended octets).length = s.length + octets.length := by
  simp [length]

/-- The result of a creation that is not refused. -/
def created (octets : List UInt8) (preallocate : Nat) : SlString :=
  ⟨pow2Size (if octets.length ≤ preallocate then preallocate else wrap64 (octets.length <<< 1)), octets⟩

/-- A creation is refused, or yields `created`. -/
theorem ensures_createFromBuffer (octets : List UInt8) (preallocate : Nat) :
    Prog.Ensures (createFromBuffer octets preallocate : Prog P _) fun
      | some s => s = created octets preallocate
      | none => ¬P.Succeeds := by
  refine Prog.Ensures.allocate (.allocate ?_ ?_) ?_
  · exact .pure rfl
  · exact fun refused => .pure refused
  · exact fun refused => .pure refused

/-- An append is refused, or yields `appended`. -/
theorem ensures_appendWithBuffer (s : SlString) (octets : List UInt8) :
    Prog.Ensures (s.appendWithBuffer octets : Prog P _) fun
      | some s' => s' = s.appended octets
      | none => ¬P.Succeeds := by
  unfold appendWithBuffer appended
  split
  · exact .pure rfl
  · exact .allocate (.pure rfl) fun refused => .pure refused

variable {C : (α : Type) → Prog P α → Prop}

theorem compositional_createFromBuffer (law : Prog.Compositional P C) (octets : List UInt8) (preallocate : Nat) :
    C _ (createFromBuffer octets preallocate : Prog P _) := by
  refine law.allocating (law.allocating ?_ ?_) ?_
  · exact law.pure _
  · exact law.pure _
  · exact law.pure _

theorem compositional_appendWithBuffer (law : Prog.Compositional P C) (s : SlString) (octets : List UInt8) :
    C _ (s.appendWithBuffer octets : Prog P _) := by
  unfold appendWithBuffer
  split
  · exact law.pure _
  · exact law.allocating (law.pure _) (law.pure _)

end SlString

end Cpptrw.Text
