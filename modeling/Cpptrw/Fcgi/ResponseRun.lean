import Cpptrw.Fcgi.Response
import Cpptrw.Hashtable.Refinement

/-!
# Responses that are put together call by call

A response is a table of headers and a string of output, and calls of the three
functions on it may come in any order. `Serialises` says what a serialised
response is, given the calls alone: one line for each name, with the value that
the name was given last, an empty line, and all the output. Serialising leaves
the response as it is, so a run may go on behind it.
-/

namespace Cpptrw.Fcgi

open Lib Lib.Prog Text Hashtable

variable {P : Platform}

inductive ResponseCall where
  | appendHeader (name value : SlString)
  | appendOutput (output : SlString)
  | process

namespace Response

/-- One call: the response behind it, and what `sl_fcgi_response_process` returned, if it was that. -/
def call (response : Response) : ResponseCall → Prog P (Response × List (Option SlString))
  | .appendHeader name value => response.appendHeader name value >>= fun r => pure (r.2, [])
  | .appendOutput output => response.appendOutput output >>= fun r => pure (r.getD response, [])
  | .process => response.process >>= fun output => pure (response, [output])

/-- A sequence of calls, whatever they return. -/
def callAll : Response → List ResponseCall → Prog P (Response × List (Option SlString))
  | response, [] => pure (response, [])
  | response, c :: calls => response.call c >>= fun r => callAll r.1 calls >>= fun r' => pure (r'.1, r.2 ++ r'.2)

end Response

/-! ## What a response is, by the calls -/

/-- The headers that were appended. -/
def headersOf : List ResponseCall → List (List UInt8 × List UInt8)
  | [] => []
  | .appendHeader name value :: calls => (name.octets, value.octets) :: headersOf calls
  | .appendOutput _ :: calls => headersOf calls
  | .process :: calls => headersOf calls

/-- The outputs that were appended. -/
def outputsOf : List ResponseCall → List (List UInt8)
  | [] => []
  | .appendHeader _ _ :: calls => outputsOf calls
  | .appendOutput output :: calls => output.octets :: outputsOf calls
  | .process :: calls => outputsOf calls

theorem headersOf_append (calls calls' : List ResponseCall) : headersOf (calls ++ calls') = headersOf calls ++ headersOf calls' := by
  induction calls with
  | nil => rfl
  | cons c calls ih => cases c <;> simp [headersOf, ih]

theorem outputsOf_append (calls calls' : List ResponseCall) : outputsOf (calls ++ calls') = outputsOf calls ++ outputsOf calls' := by
  induction calls with
  | nil => rfl
  | cons c calls ih => cases c <;> simp [outputsOf, ih]

/-- The line of a header. -/
def headerLine (name value : List UInt8) : List UInt8 := name ++ octetsOf ": " ++ value ++ octetsOf "\r\n"

/-- **A serialised response**, for the calls that led to it. -/
def Serialises (calls : List ResponseCall) (octets : List UInt8) : Prop :=
  ∃ names : List (List UInt8), names.Nodup ∧ (∀ name, name ∈ names ↔ name ∈ (headersOf calls).map Prod.fst) ∧
    octets = names.flatMap (fun name => headerLine name ((lastValue (headersOf calls) name).getD [])) ++ octetsOf "\r\n" ++
      (outputsOf calls).flatten

/-- Each call of `sl_fcgi_response_process` returned what the calls before it made. -/
def Answers : List ResponseCall → List ResponseCall → List (Option SlString) → Prop
  | _, [], results => results = []
  | before, .process :: calls, results => ∃ output rest, results = some output :: rest ∧ Serialises before output.octets ∧
      Answers (before ++ [.process]) calls rest
  | before, c :: calls, results => Answers (before ++ [c]) calls results

/-- The response holds what was appended. -/
structure Response.Holds (response : Response) (calls : List ResponseCall) : Prop where
  headers : ∃ assignments, Refines response.headers assignments ∧
    headersOf calls = assignments.map fun assignment => (assignment.1, assignment.2.octets)
  stdout : response.stdout.octets = (outputsOf calls).flatten

namespace Response.Holds

variable {response : Response} {calls : List ResponseCall}

theorem init {size : Nat} (least : 1 ≤ size) (most : size ≤ 2 ^ 32) : (Response.init size).Holds [] where
  headers := ⟨[], .init least most true, rfl⟩
  stdout := rfl

/-- The header lines come in the order of the nodes. -/
theorem serialises (h : response.Holds calls) : Serialises calls response.raw := by
  obtain ⟨assignments, table, headers⟩ := h.headers
  have values : ∀ node ∈ response.headers.buckets.flatten,
      lastValue (headersOf calls) node.key = some node.value.octets := by
    intro node there
    have value := (table.holding.values node.key node.value).mpr ⟨node, there, rfl, rfl⟩
    rw [headers, lastValue_map, value]
    rfl
  have lines : ∀ nodes : List (Bucket SlString), (∀ node ∈ nodes, lastValue (headersOf calls) node.key = some node.value.octets) →
      headerLines nodes = (nodes.map Bucket.key).flatMap fun name => headerLine name ((lastValue (headersOf calls) name).getD []) := by
    intro nodes known
    rw [headerLines, List.flatMap_map]
    apply List.flatMap_congr
    intro node there
    simp [known node there, headerLine]
  refine ⟨response.headers.buckets.flatten.map Bucket.key, table.holding.distinct, fun name => ?_, ?_⟩
  · rw [table.holding.keys, headers, List.map_map]
    rfl
  · rw [raw, lines _ values, h.stdout, List.append_assoc]

/-- A header comes in, or is set anew. -/
theorem appendHeader (all : P.Succeeds) (h : response.Holds calls) (name value : SlString) :
    Ensures (response.appendHeader name value : Prog P _) fun r => r.2.Holds (calls ++ [.appendHeader name value]) := by
  obtain ⟨assignments, table, headers⟩ := h.headers
  refine (ensures_set all table name.octets value).bind fun r hr => .pure ?_
  constructor
  · exact ⟨_, hr.2, by simp [headersOf_append, headersOf, headers]⟩
  · simpa [outputsOf_append, outputsOf] using h.stdout

/-- Output comes behind the output there is. -/
theorem appendOutput (all : P.Succeeds) (h : response.Holds calls) (output : SlString) :
    Ensures (response.appendOutput output : Prog P _) fun r => (r.getD response).Holds (calls ++ [.appendOutput output]) := by
  refine (SlString.ensures_appendWithBuffer response.stdout output.octets).bind fun r appended => .pure ?_
  cases r with
  | none => exact absurd all appended
  | some stdout =>
    dsimp only at appended
    constructor
    · simpa [headersOf_append, headersOf] using h.headers
    · simp [appended, SlString.octets_appended, h.stdout, outputsOf_append, outputsOf]

theorem process (h : response.Holds calls) : response.Holds (calls ++ [.process]) := by
  constructor
  · simpa [headersOf_append, headersOf] using h.headers
  · simpa [outputsOf_append, outputsOf] using h.stdout

/-- **A run of calls.** -/
theorem callAll (all : P.Succeeds) (later : List ResponseCall) : ∀ {response : Response} {calls : List ResponseCall}, response.Holds calls →
    Ensures (response.callAll later : Prog P _) fun r => r.1.Holds (calls ++ later) ∧ Answers calls later r.2 := by
  induction later with
  | nil =>
    intro response calls h
    exact .pure ⟨by simpa using h, rfl⟩
  | cons c later ih =>
    intro response calls h
    rw [Response.callAll]
    cases c with
    | appendHeader name value =>
      simp only [Response.call, bind_assoc, pure_bind]
      refine (h.appendHeader all name value).bind fun r held => (ih held).bind fun r' run => .pure ?_
      simpa [Answers] using run
    | appendOutput output =>
      simp only [Response.call, bind_assoc, pure_bind]
      refine (h.appendOutput all output).bind fun r held => (ih held).bind fun r' run => .pure ?_
      simpa [Answers] using run
    | process =>
      simp only [Response.call, bind_assoc, pure_bind]
      refine (ensures_process response).bind fun output made => (ih h.process).bind fun r' run => .pure ?_
      cases output with
      | none => exact absurd all made
      | some output =>
        dsimp only at made
        refine ⟨by simpa using run.1, output, r'.2, rfl, ?_, run.2⟩
        rw [made]
        exact h.serialises

end Response.Holds

/-- **Serialising equals its reference.** Behind any calls, every call of `sl_fcgi_response_process`
returns the lines of the headers, each name once and with its last value, an empty line and the
outputs in their order; and the calls behind it find the response as it was. -/
theorem response_serialised (all : P.Succeeds) {size : Nat} (least : 1 ≤ size) (most : size ≤ 2 ^ 32) (calls : List ResponseCall) :
    Ensures ((Response.init size).callAll calls : Prog P _) fun r => r.1.Holds calls ∧ Answers [] calls r.2 :=
  (Response.Holds.init least most).callAll all calls

/-- A header that is set again behind a serialised response. -/
def helloCalls : List ResponseCall :=
  [.appendOutput (.initWithCstring "Hello"), .appendHeader (.initWithCstring "A") (.initWithCstring "1"), .process,
    .appendHeader (.initWithCstring "A") (.initWithCstring "2"), .appendOutput (.initWithCstring "!"), .process]

theorem response_serialised_hello :
    Ensures ((Response.init 16).callAll helloCalls : Prog .ample _) fun r => r.1.Holds helloCalls ∧ Answers [] helloCalls r.2 :=
  response_serialised Platform.ample_succeeds (by decide) (by decide) helloCalls

end Cpptrw.Fcgi
