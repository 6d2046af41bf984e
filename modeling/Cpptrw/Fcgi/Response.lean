import Cpptrw.Fcgi.Request

/-!
# The response (`sl_fcgi.c`)

Headers come out in the order of the table, chain by chain. The lengths that
`sl_main_request_send_response` puts into its headers belong to `main.c`; what
is here ends with the octets of the response.
-/

namespace Cpptrw.Fcgi

open Lib Lib.Prog Text Hashtable

variable {P : Platform}

/-- `sl_fcgi_response`. -/
structure Response where
  headers : Table SlString
  stdout : SlString := .empty
  deriving DecidableEq, Repr

namespace Response

/-- `sl_fcgi_response_init`. -/
def init (headerHashtableSize : Nat) : Response := { headers := Hashtable.init headerHashtableSize true }

/-- `sl_fcgi_response_append_header`; `false` is the return value `-1`. -/
def appendHeader (response : Response) (name value : SlString) : Prog P (Bool × Response) :=
  Hashtable.set response.headers (some name.octets) value >>= fun r => pure (r.1, { response with headers := r.2 })

/-- `sl_fcgi_response_append_output`; `none` is the return value `-1`. -/
def appendOutput (response : Response) (output : SlString) : Prog P (Option Response) :=
  response.stdout.appendWithString output >>= fun stdout => pure (stdout.map fun stdout => { response with stdout })

/-- The loops of `sl_fcgi_response_process` over the nodes of the table. -/
def appendHeaders (output : SlString) : List (Bucket SlString) → Prog P (Option SlString)
  | [] => pure (some output)
  | node :: nodes => format headerFormat [.string (some node.key), .string (some node.value.octets)] >>= fun
    | none => pure none
    | some header => output.appendWithString header >>= fun
      | none => pure none
      | some output => appendHeaders output nodes

/-- `sl_fcgi_response_process`. -/
def process (response : Response) : Prog P (Option SlString) := do
  if ← allocate sizeofString then
    match ← appendHeaders .empty response.headers.buckets.flatten with
    | none => pure none
    | some output =>
      match ← output.appendWithBuffer (octetsOf "\r\n") with
      | none => pure none
      | some output => output.appendWithString response.stdout
  else
    pure none

theorem ensures_appendOutput (response : Response) (output : SlString) :
    Ensures (response.appendOutput output : Prog P _) fun _ => True :=
  (SlString.ensures_appendWithBuffer response.stdout output.octets).bind fun _ _ => .pure trivial

/-- The nodes of the table as header lines. -/
def headerLines (nodes : List (Bucket SlString)) : List UInt8 :=
  nodes.flatMap fun node => node.key ++ (octetsOf ": " ++ (node.value.octets ++ octetsOf "\r\n"))

/-- The octets of the response: header lines, an empty line, and the output. -/
def raw (response : Response) : List UInt8 :=
  headerLines response.headers.buckets.flatten ++ (octetsOf "\r\n" ++ response.stdout.octets)

/-- The headers are serialised, or memory is refused. -/
theorem ensures_appendHeaders (nodes : List (Bucket SlString)) :
    ∀ output : SlString, Ensures (appendHeaders output nodes : Prog P _) fun
      | some output' => output'.octets = output.octets ++ headerLines nodes
      | none => ¬P.Succeeds := by
  induction nodes with
  | nil =>
    intro output
    exact .pure (by simp [headerLines])
  | cons node nodes ih =>
    intro output
    refine (ensures_format (header_matching node.key node.value.octets)).bind fun header made => ?_
    cases header with
    | none => exact .pure made
    | some header =>
      dsimp only at made
      rw [expansion_argument, expansion_append, expansion_literals, expansion_argument, expansion_literals] at made
      refine (SlString.ensures_appendWithBuffer output header.octets).bind fun output' appended => ?_
      cases output' with
      | none => exact .pure appended
      | some output' =>
        refine (ih output').mono fun last rest => ?_
        cases last with
        | none => exact rest
        | some last =>
          dsimp only at appended rest ⊢
          rw [rest, appended, SlString.octets_appended, made]
          simp [headerLines]

/-- **The response is serialised**, or memory is refused. -/
theorem ensures_process (response : Response) : Ensures (response.process : Prog P _) fun
    | some output => output.octets = response.raw
    | none => ¬P.Succeeds := by
  apply Ensures.allocate
  · refine (ensures_appendHeaders response.headers.buckets.flatten .empty).bind fun output lines => ?_
    cases output with
    | none => exact .pure lines
    | some output =>
      refine (SlString.ensures_appendWithBuffer output _).bind fun output' appended => ?_
      cases output' with
      | none => exact .pure appended
      | some output' =>
        refine (SlString.ensures_appendWithBuffer output' response.stdout.octets).mono fun last appended' => ?_
        cases last with
        | none => exact appended'
        | some last =>
          dsimp only at lines appended appended' ⊢
          rw [appended', SlString.octets_appended, appended, SlString.octets_appended, lines, raw, List.append_assoc]
          rfl
  · exact fun refused => .pure refused

/-! ## What serialising is made of -/

variable {C : (α : Type) → Prog P α → Prop}

theorem compositional_appendHeaders (law : Compositional P C) (nodes : List (Bucket SlString)) :
    ∀ output : SlString, C _ (appendHeaders output nodes : Prog P _) := by
  induction nodes with
  | nil => exact fun output => law.pure _
  | cons node nodes ih =>
    intro output
    refine law.bind (compositional_format law _ _) fun header => ?_
    cases header with
    | none => exact law.pure _
    | some header =>
      refine law.bind (SlString.compositional_appendWithBuffer law _ _) fun output' => ?_
      cases output' with
      | none => exact law.pure _
      | some output' => exact ih output'

theorem compositional_process (law : Compositional P C) (response : Response) : C _ (response.process : Prog P _) := by
  refine law.allocating ?_ (law.pure _)
  refine law.bind (compositional_appendHeaders law _ _) fun output => ?_
  cases output with
  | none => exact law.pure _
  | some output =>
    refine law.bind (SlString.compositional_appendWithBuffer law _ _) fun output' => ?_
    cases output' with
    | none => exact law.pure _
    | some output' => exact SlString.compositional_appendWithBuffer law _ _

end Response

end Cpptrw.Fcgi
