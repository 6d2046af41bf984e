import Cpptrw.Leftover.ParserValues
import Cpptrw.Fcgi.WireRecord

/-!
# The pairs of a record, in memory

What a client sends in a params record is found in memory by whoever follows
the pointers from the parser: the records are linked in the order of the pairs,
and each leads to a terminated name and a terminated value. The parser by value
decodes the pairs and the parser in memory stands for it, so that nothing is
said here of single octets.
-/

namespace Cpptrw.Leftover

open Lib Lib.Layout Arena
open Fcgi (MsgParam Pair)

variable {S : Setting} {objects : List Object} {a first next : Nat} {m : Memory} {pair : Pair} {pairs : List Pair}
  {pointers : Half → Nat} {w : World}

/-- **Pairs in memory**: linked records with two lengths and two pointers each, to octets with a terminator. -/
def PairsIn (m : Memory) : Nat → List Pair → Prop
  | a, [] => a = 0
  | a, pair :: pairs => a ≠ 0 ∧ ∃ (next : Nat) (pointers : Half → Nat),
      m.read a Fcgi.sizeofMsgParam = (paramFields next pair.stored pointers).flatten ∧
      m.read (pointers .name) (pair.name.length + 1) = pair.name ++ [0] ∧
      m.read (pointers .value) (pair.value.length + 1) = pair.value ++ [0] ∧ PairsIn m next pairs

/-- All octets of an object that is known through and through. -/
theorem Object.In.all {octets : List UInt8} (h : Object.In m ⟨a, octets.map some⟩) : m.read a octets.length = octets := by
  have content : ((octets.map some).drop 0).take octets.length = octets.map some := by
    rw [List.drop_zero, List.take_of_length_le (Nat.le_of_eq (List.length_map ..))]
  exact h.read content

namespace ParamAt

/-- A parameter that is complete, in front of others. -/
theorem pairsIn (h : ParamAt a next pointers pair.stored objects) (there : ∀ o ∈ objects, o.In m) (behind : PairsIn m next pairs) :
    PairsIn m a (pair :: pairs) := by
  obtain ⟨parts, rfl, data⟩ := h.parts
  have name : DataAt (pointers .name) (some (Fcgi.terminated pair.name)) (parts .name) := data .name
  have value : DataAt (pointers .value) (some (Fcgi.terminated pair.value)) (parts .value) := data .value
  rw [name.of_some.1, value.of_some.1] at there
  refine ⟨h.valid, next, pointers, ?_, ?_, ?_, behind⟩
  · have fields := (there ⟨a, record (paramFields next pair.stored pointers)⟩ List.mem_cons_self).all
    have size : (paramFields next pair.stored pointers).flatten.length = Fcgi.sizeofMsgParam := by simp [paramFields, Fcgi.sizeofMsgParam]
    rwa [size] at fields
  · have octets := (there ⟨pointers .name, Fcgi.terminated pair.name⟩ (by simp)).all
    rwa [List.length_append, List.length_singleton] at octets
  · have octets := (there ⟨pointers .value, Fcgi.terminated pair.value⟩ (by simp)).all
    rwa [List.length_append, List.length_singleton] at octets

end ParamAt

theorem Chain.pairsIn (h : Chain first (pairs.map Pair.stored) 0 objects) (there : ∀ o ∈ objects, o.In m) : PairsIn m first pairs := by
  induction pairs generalizing first objects with
  | nil =>
    cases h
    rfl
  | cons pair pairs ih =>
    cases h with
    | cons here rest =>
      exact here.pairsIn (fun o new => there o (List.mem_append_left _ new)) (ih rest fun o new => there o (List.mem_append_right _ new))

/-- A parser with complete pairs has logged their names and no others. -/
theorem logFits_of_stored {q : Fcgi.Parser} (stored : q.params = pairs.map Pair.stored) (finished : q.state = .finished)
    (other : ∀ pair ∈ pairs, pair.name.length ≠ 48) : q.LogFits := by
  intro inside
  have complete : ¬q.InNameLength := by
    rw [Fcgi.Parser.InNameLength, finished]
    decide
  rw [Fcgi.Parser.nameLengths, if_neg complete, stored, List.map_map] at inside
  obtain ⟨pair, there, same⟩ := List.mem_map.mp inside
  exact other pair there same

/-- **A params record, in memory.** On every record of pairs with an octet behind it the parser by value settles. If that
is not in the error state, and no name has 48 octets, the parser in memory finishes too, from whatever is in memory: it
has consumed the record and asked for the same memory, and the records linked from it are its pairs. -/
theorem record_in_memory (sound : S.Sound) (fuel : 4 ≤ S.fuel) (good : Good S (fun _ => none) w) (r : Fcgi.ParamsRecord)
    {behind : List UInt8} (follows : behind ≠ []) (other : ∀ pair ∈ r.pairs, pair.name.length ≠ 48) :
    ∃ q n t, (Fcgi.Parser.init.parse (r.octets ++ behind) : Prog (arenaPlatform S) _) w.resources = .ok ((q, n), t) ∧
      (q.state = .error ∨ ∃ p w', Parser.parse S {} (r.octets ++ behind) w = (.ok (p, n), w') ∧ w'.resources = t ∧
        p.state = .finished ∧ n = r.octets.length ∧ PairsIn w'.memory p.firstParam r.pairs) := by
  have whole : r.octets ++ behind = r.header.octets ++ (r.content ++ (r.padding ++ behind)) := by
    simp only [Fcgi.ParamsRecord.octets, List.append_assoc]
  obtain ⟨⟨q, n⟩, t, run, consumed⟩ := Fcgi.ensures_record (P := arenaPlatform S) r.header (r.content ++ (r.padding ++ behind)) w.resources
  rw [← whole] at run
  refine ⟨q, n, t, run, ?_⟩
  rcases consumed.settled r.type r.content_ne_zero r.contentLength r.paddingLength follows ⟨r.pairs, r.read⟩ with finished | refused
  · right
    obtain ⟨pairs, read, stored⟩ := consumed.pairs r.type r.content_ne_zero r.contentLength finished
    obtain rfl := read.unique r.read
    have size : n = r.octets.length := by
      rw [show n = _ from consumed.size r.type r.content_ne_zero finished, Fcgi.ParamsRecord.octets, List.length_append, List.length_append,
        Fcgi.RecordHeader.length_octets, r.contentLength, r.paddingLength, Nat.add_assoc]
    obtain ⟨_, w', _, step, same, ⟨first, last, data, params, back, rfl, rfl, list, -⟩, -, held⟩ :=
      realized_from_init sound fuel good run (logFits_of_stored stored finished other)
    rw [show q.params = _ from stored] at list
    exact ⟨_, w', step, same, finished, size, list.chain.pairsIn fun o there => (held o (List.mem_append_left back there)).2⟩
  · exact Or.inl refused

/-- The parameter `A`, whose value is `B`. -/
theorem record_in_memory_one_parameter :
    ∃ p w', Parser.parse onePlace {} [1, 4, 0, 1, 0, 4, 0, 0, 1, 1, 65, 66, 1] restarted = (.ok (p, 12), w') ∧ p.state = .finished ∧
      PairsIn w'.memory p.firstParam [⟨[65], [66]⟩] := by
  have read : Fcgi.PairsOctets [1, 1, 65, 66] [⟨[65], [66]⟩] :=
    .single (@Fcgi.PairOctets.intro [1] [1] ⟨[65], [66]⟩ (.short 1 (by decide)) (.short 1 (by decide)))
  have other : ∀ pair ∈ [(⟨[65], [66]⟩ : Pair)], pair.name.length ≠ 48 := by decide
  have here := record_in_memory sound_onePlace (by decide) good_restarted
    ⟨⟨1, 4, 0, 1, 0, 4, 0, 0⟩, [1, 1, 65, 66], [], [⟨[65], [66]⟩], rfl, read, List.cons_ne_nil _ _, rfl, rfl⟩ (List.cons_ne_nil 1 []) other
  change ∃ q n t, (Fcgi.Parser.init.parse [1, 4, 0, 1, 0, 4, 0, 0, 1, 1, 65, 66, 1] : Prog (arenaPlatform onePlace) _) restarted.resources =
    .ok ((q, n), t) ∧ (q.state = .error ∨ ∃ p w', Parser.parse onePlace {} [1, 4, 0, 1, 0, 4, 0, 0, 1, 1, 65, 66, 1] restarted =
      (.ok (p, n), w') ∧ w'.resources = t ∧ p.state = .finished ∧ n = 12 ∧ PairsIn w'.memory p.firstParam [⟨[65], [66]⟩]) at here
  obtain ⟨q, n, t, run, refused | ⟨p, w', step, -, finished, rfl, pairs⟩⟩ := here
  · have state : ((Fcgi.Parser.init.parse [1, 4, 0, 1, 0, 4, 0, 0, 1, 1, 65, 66, 1] : Prog (arenaPlatform onePlace) _)
        restarted.resources).toOption.map (fun r => r.1.1.state) = some .finished := by
      decide +kernel
    rw [run] at state
    cases refused.symm.trans (Option.some.inj state)
  · exact ⟨p, w', step, finished, pairs⟩

end Cpptrw.Leftover
