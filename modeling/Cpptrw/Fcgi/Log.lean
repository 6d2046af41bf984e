import Cpptrw.Text.Format

/-!
# Logging (`sl_log_write_format`)

A formatted log line is formatted in the connection's arena before its level
is looked at, so it allocates whether or not it is written. What it puts out
goes to the log descriptor and comes back nowhere. Plain log lines
(`sl_log_write`) do not allocate and are left out of the model.
-/

namespace Cpptrw.Fcgi

open Lib Text

variable {P : Platform}

/-- `sl_log_write_format`, without the octets written to the log. -/
def logWriteFormat (fmt : CString) (arguments : List Argument) : Prog P Unit :=
  format fmt arguments >>= fun _ => pure ()

theorem ensures_log {fmt : CString} {arguments : List Argument} {ps : List Piece}
    (h : Matching fmt.octets arguments ps) :
    Prog.Ensures (logWriteFormat fmt arguments : Prog P Unit) fun _ => True :=
  (ensures_format h).bind fun _ _ => .pure trivial

theorem compositional_log {C : (α : Type) → Prog P α → Prop} (law : Prog.Compositional P C) (fmt : CString)
    (arguments : List Argument) : C _ (logWriteFormat fmt arguments : Prog P Unit) :=
  law.bind (compositional_format law fmt arguments) fun _ => law.pure _

/-- A log line that formats can be left out of a computation. -/
theorem agree_skip_log {α : Type} {fmt : CString} {arguments : List Argument} {ps : List Piece}
    (h : Matching fmt.octets arguments ps) {k k' : Prog P α} (same : Prog.Agree k k') :
    Prog.Agree (logWriteFormat fmt arguments >>= fun _ => k) k' :=
  .drop (ensures_log h) same

/-! ## The format strings of the program -/

def parameterFormat : CString := ⟨octetsOf "FCGI parameter: %S=%S", by decide⟩
def stdinFormat : CString := ⟨octetsOf "FCGI stdin: %S", by decide⟩
def parsedFormat : CString := ⟨octetsOf "Parsed %z bytes", by decide⟩
def receivedFormat : CString := ⟨octetsOf "Received %z bytes", by decide⟩
def sentFormat : CString := ⟨octetsOf "Sent %z bytes response", by decide⟩
def headerFormat : CString := ⟨octetsOf "%S: %S\r\n", by decide⟩

theorem parameter_matching (name value : List UInt8) :
    Matching parameterFormat.octets [.string (some name), .string (some value)]
      (literals (octetsOf "FCGI parameter: ") ++ .argument name :: (literals (octetsOf "=") ++ [.argument value])) := by
  refine ⟨?_, by decide⟩
  rw [show parameterFormat.octets = octetsOf "FCGI parameter: " ++ percent :: code 'S' ::
      (octetsOf "=" ++ percent :: code 'S' :: []) by decide,
    pieces_literals (by decide), pieces_string, pieces_literals (by decide), pieces_string]
  simp [pieces]

theorem header_matching (name value : List UInt8) :
    Matching headerFormat.octets [.string (some name), .string (some value)]
      (.argument name :: (literals (octetsOf ": ") ++ .argument value :: literals (octetsOf "\r\n"))) := by
  refine ⟨?_, by decide⟩
  rw [show headerFormat.octets = percent :: code 'S' :: (octetsOf ": " ++ percent :: code 'S' ::
      (octetsOf "\r\n" ++ [])) by decide,
    pieces_string, pieces_literals (by decide), pieces_string, pieces_literals (by decide)]
  simp [pieces]

theorem stdin_matching (data : List UInt8) :
    Matching stdinFormat.octets [.string (some data)] (literals (octetsOf "FCGI stdin: ") ++ [.argument data]) := by
  refine ⟨?_, by decide⟩
  rw [show stdinFormat.octets = octetsOf "FCGI stdin: " ++ percent :: code 'S' :: [] by decide,
    pieces_literals (by decide), pieces_string]
  simp [pieces]

/-- A format with one number between two runs of literals. -/
theorem number_matching {fmt front back : List UInt8} (split : fmt = front ++ percent :: code 'z' :: (back ++ []))
    (short : fmt.length < 2 ^ 64) (plain : percent ∉ front ∧ percent ∉ back) (n : UInt64) :
    Matching fmt [.number n] (literals front ++ .argument (decimal n.toNat) :: literals back) := by
  refine ⟨?_, short⟩
  rw [split, pieces_literals plain.1, pieces_number, pieces_literals plain.2]
  simp [pieces]

theorem parsed_matching (n : UInt64) : Matching parsedFormat.octets [.number n]
    (literals (octetsOf "Parsed ") ++ .argument (decimal n.toNat) :: literals (octetsOf " bytes")) :=
  number_matching (by decide) (by decide) (by decide) n

theorem received_matching (n : UInt64) : Matching receivedFormat.octets [.number n]
    (literals (octetsOf "Received ") ++ .argument (decimal n.toNat) :: literals (octetsOf " bytes")) :=
  number_matching (by decide) (by decide) (by decide) n

theorem sent_matching (n : UInt64) : Matching sentFormat.octets [.number n]
    (literals (octetsOf "Sent ") ++ .argument (decimal n.toNat) :: literals (octetsOf " bytes response")) :=
  number_matching (by decide) (by decide) (by decide) n

end Cpptrw.Fcgi
