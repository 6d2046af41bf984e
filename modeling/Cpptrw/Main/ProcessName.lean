import Cpptrw.Lib.Prog
import Cpptrw.Lib.Region
import Cpptrw.Lib.Word
import Cpptrw.Text.Format

/-!
# Overwriting the arguments (`sl_main_set_process_name`)

The kernel puts the arguments and the environment of a process one behind the
other, and the name is copied over them. The room is counted as the length of
the first argument and, once for each variable, the length of the first
variable: the index of the loop is not used. The count is right if the other
variables are long enough, and otherwise there are names that are copied over
what lies behind the environment.
-/

namespace Cpptrw.Main

open Lib Text

/-- A string that `argv` or `env` leads to. -/
structure Placed where
  address : Nat
  string : CString

/-- `strlen`. -/
def strlen (string : CString) : Nat := string.octets.length

/-- The loop over `env`; `first` is `env[0]`. -/
def countEnvironment (first : Placed) : List Placed → Nat → Nat
  | [], available => available
  | _ :: env, available => countEnvironment first env (wrap64 (available + strlen first.string))

/-- `sl_main_set_process_name`: the region that is copied to, if any. Without arguments `argv[0]` is `NULL`. -/
def setProcessName (argv env : List Placed) (name : CString) : Except Fault (Option Region) :=
  let length := wrap64 (strlen name + 1)
  let available :=
    match argv with
    | [] => 0
    | first :: _ => wrap64 (strlen first.string)
  let available :=
    match env with
    | [] => available
    | first :: _ => countEnvironment first env available
  if length > available then .ok none
  else
    match argv with
    | [] => .error .nullPointer
    | first :: _ => .ok (some ⟨first.address, length⟩)

/-! ## Where the kernel puts the strings -/

/-- The octets that strings take, one behind the other. -/
def extent (strings : List Placed) : Nat := (strings.map fun placed => strlen placed.string + 1).sum

/-- Each string begins behind the NUL of the one before. -/
def Consecutive : Nat → List Placed → Prop
  | _, [] => True
  | base, placed :: rest => placed.address = base ∧ Consecutive (base + strlen placed.string + 1) rest

/-- What is copied stays within these octets. -/
def Inside (area : Region) : Except Fault (Option Region) → Prop
  | .ok none => True
  | .ok (some region) => region.Within area
  | .error _ => False

instance (area : Region) (result : Except Fault (Option Region)) : Decidable (Inside area result) := by
  unfold Inside Region.Within
  split <;> infer_instance

/-! ## The room that is counted -/

/-- The length of the first of the strings. -/
def firstLength (strings : List Placed) : Nat := (strings.head?.map fun placed => strlen placed.string).getD 0

/-- The first argument, and for each variable the first one. -/
def counted (argv env : List Placed) : Nat := wrap64 (firstLength argv + env.length * firstLength env)

/-- The octets behind `argv[0]`. -/
def room (argv env : List Placed) : Nat := if argv = [] then 0 else extent (argv ++ env)

theorem countEnvironment_eq (first : Placed) (env : List Placed) (available : Nat) :
    wrap64 (countEnvironment first env available) = wrap64 (available + env.length * strlen first.string) := by
  induction env generalizing available with
  | nil => simp [countEnvironment]
  | cons _ env ih =>
    rw [countEnvironment, ih, List.length_cons, Nat.succ_mul]
    simp only [wrap64]
    omega

theorem countEnvironment_lt (first : Placed) (env : List Placed) {available : Nat} (small : available < 2 ^ 64) :
    countEnvironment first env available < 2 ^ 64 := by
  induction env generalizing available with
  | nil => exact small
  | cons _ env ih => exact ih (wrap64_lt _)

variable {base : Nat} {argv env : List Placed} {name : CString}

/-- What the two sums of the source come to. -/
theorem setProcessName_eq (argv env : List Placed) (short : strlen name + 1 < 2 ^ 64) :
    setProcessName argv env name =
      if counted argv env < strlen name + 1 then .ok none
      else
        match argv with
        | [] => .error .nullPointer
        | first :: _ => .ok (some ⟨first.address, strlen name + 1⟩) := by
  have first : (match argv with | [] => 0 | first :: _ => wrap64 (strlen first.string)) = wrap64 (firstLength argv) := by
    cases argv <;> simp [firstLength, wrap64]
  have available : (match env with
      | [] => wrap64 (firstLength argv)
      | first :: _ => countEnvironment first env (wrap64 (firstLength argv))) = counted argv env := by
    cases env with
    | nil => simp [counted]
    | cons entry env =>
      have same := countEnvironment_eq entry (entry :: env) (wrap64 (firstLength argv))
      rw [wrap64_of_lt (countEnvironment_lt _ _ (wrap64_lt _))] at same
      dsimp only
      rw [same, counted, show firstLength (entry :: env) = strlen entry.string from rfl]
      simp [wrap64]
  simp only [setProcessName, first, available, wrap64_of_lt short, gt_iff_lt]

/-! ## Names that fit -/

/-- The strings begin where the first argument is. -/
theorem Consecutive.address {first : Placed} {rest : List Placed} (h : Consecutive base (first :: rest)) : first.address = base := h.1

/-- One name: it stays inside unless it is longer than the strings together, and not longer than the room
that was counted. -/
theorem process_name_inside_iff (laid : Consecutive base (argv ++ env)) (short : strlen name + 1 < 2 ^ 64) :
    Inside ⟨base, extent (argv ++ env)⟩ (setProcessName argv env name) ↔
      ¬(room argv env < strlen name + 1 ∧ strlen name + 1 ≤ counted argv env) := by
  rw [setProcessName_eq argv env short]
  by_cases refused : counted argv env < strlen name + 1
  · rw [if_pos refused]
    simp only [Inside, true_iff]
    omega
  · rw [if_neg refused]
    cases argv with
    | nil =>
      simp only [Inside, room, if_true, false_iff, not_not]
      omega
    | cons first argv =>
      simp only [Inside, Region.Within, laid.address, room, reduceCtorEq, if_false]
      omega

/-- **The process name stays inside**, whatever it is, if and only if no more is counted than there is.
Where more is counted, the names that do not are those between the two. -/
theorem process_names_inside_iff (laid : Consecutive base (argv ++ env)) :
    ((∀ name : CString, strlen name + 1 < 2 ^ 64 → Inside ⟨base, extent (argv ++ env)⟩ (setProcessName argv env name)) ↔
        counted argv env ≤ room argv env) ∧
      ∀ name : CString, strlen name + 1 < 2 ^ 64 → (Inside ⟨base, extent (argv ++ env)⟩ (setProcessName argv env name) ↔
        ¬(room argv env < strlen name + 1 ∧ strlen name + 1 ≤ counted argv env)) := by
  refine ⟨⟨fun all => ?_, fun enough name short => ?_⟩, fun name short => process_name_inside_iff laid short⟩
  · by_contra more
    let longest : CString := ⟨List.replicate (counted argv env - 1) 97, by simp [List.mem_replicate]⟩
    have length : strlen longest + 1 = counted argv env := by
      simp only [strlen, longest, List.length_replicate]
      omega
    have small : counted argv env < 2 ^ 64 := wrap64_lt _
    have inside := all longest (by omega)
    rw [process_name_inside_iff laid (by omega)] at inside
    omega
  · rw [process_name_inside_iff laid short]
    omega

/-- One argument, and three variables of which the first is the longest. -/
def shortArgv : List Placed := [⟨1000, ⟨Text.octetsOf "a", by decide⟩⟩]

def shortEnv : List Placed := [⟨1002, ⟨Text.octetsOf "HOME=/rt", by decide⟩⟩, ⟨1011, ⟨Text.octetsOf "B=", by decide⟩⟩, ⟨1014, ⟨Text.octetsOf "C=", by decide⟩⟩]

/-- `SL_MAIN_MASTER_PROCESS_NAME`. -/
def masterProcessName : CString := ⟨Text.octetsOf "cpptrw: master process", by decide⟩

theorem process_names_inside_short :
    ((∀ name : CString, strlen name + 1 < 2 ^ 64 →
          Inside ⟨1000, extent (shortArgv ++ shortEnv)⟩ (setProcessName shortArgv shortEnv name)) ↔
        counted shortArgv shortEnv ≤ room shortArgv shortEnv) ∧
      ∀ name : CString, strlen name + 1 < 2 ^ 64 →
        (Inside ⟨1000, extent (shortArgv ++ shortEnv)⟩ (setProcessName shortArgv shortEnv name) ↔
          ¬(room shortArgv shortEnv < strlen name + 1 ∧ strlen name + 1 ≤ counted shortArgv shortEnv)) :=
  process_names_inside_iff (by simp [shortArgv, shortEnv, Consecutive, strlen, Text.octetsOf])

/-- The name of the master process is copied over 23 octets, of which the strings are 17. -/
theorem master_process_name_outside :
    Consecutive 1000 (shortArgv ++ shortEnv) ∧
      setProcessName shortArgv shortEnv masterProcessName = .ok (some ⟨1000, 23⟩) ∧
      ¬Inside ⟨1000, extent (shortArgv ++ shortEnv)⟩ (setProcessName shortArgv shortEnv masterProcessName) := by
  refine ⟨by simp [shortArgv, shortEnv, Consecutive, strlen, Text.octetsOf], by decide, by decide⟩

end Cpptrw.Main
