import Mathlib.Data.List.Forall2
import JoinPlan.Proofs.Predicate.Rejection
/-!
# Predicates one behind the other

A predicate ends with its last bracket and the spacing behind it, and reading it settles nothing by
what follows. So it is read in the same way in front of any other text, and texts that are written
one behind the other are read one after the other.

Results:
* `Predicate.exists_extent`, `Predicate.parsePrefix_append`: what is read, and that it is read in
  front of everything that does not start with spacing.
* `Predicate.parseAll_append`, `Predicate.parseAll_flatten`: one text and then all of them.
* `Predicate.parsePrefix_selfDelimiting`: predicates show where they end.
-/
namespace JoinPlan

theorem Text.startsWith_append {p : Char → Bool} {s t : List Char} (hs : startsWith p s = false)
    (ht : startsWith p t = false) : startsWith p (s ++ t) = false := by
  cases s with
  | nil => exact ht
  | cons c s => exact hs

namespace Predicate
open JoinPlan.Parser Text Grammar

variable {s c r : List Char} {p : Predicate}

/-! ## One predicate -/

/-- What is read is a node with the spacing behind it. -/
theorem exists_extent (h : parsePrefix s = .read p r) :
    ∃ c, c ≠ [] ∧ s = c ++ r ∧ Node c p ∧ startsWith isSpacing r = false := by
  obtain ⟨c, hc, hs, hr⟩ := node_eq_read_iff.1 h
  refine ⟨c, ?_, hs, hc, hr⟩
  obtain ⟨w, d, c', -, rfl, -⟩ := hc.exists_lead
  simp

theorem parsePrefix_append (hc : Node c p) (hr : startsWith isSpacing r = false) :
    parsePrefix (c ++ r) = .read p r :=
  node_eq_read_iff.2 ⟨c, hc, rfl, hr⟩

theorem parse_of_node (hc : Node c p) : parse c = .ok p :=
  parse_of_document ⟨c, [], (List.append_nil c).symm, hc, by simp⟩

/-! ## A row of predicates -/

/-- The predicates that a text consists of, read one after the other. -/
def parseAll (s : List Char) : Except SyntaxError (List Predicate) :=
  if s.isEmpty then .ok []
  else
    match h : parsePrefix s with
    | .read p r =>
      have : r.length < s.length := length_lt_of_node h
      (parseAll r).map (p :: ·)
    | .absent e => .error e
    | .broken e => .error e
termination_by s.length

theorem parseAll_nil : parseAll [] = .ok [] := by
  rw [parseAll]
  rfl

theorem parseAll_of_read (h : parsePrefix s = .read p r) :
    parseAll s = (parseAll r).map (p :: ·) := by
  obtain ⟨c, hc, rfl, -⟩ := exists_extent h
  rw [parseAll, if_neg (by simp [hc])]
  split
  · rename_i q t hread
    cases h.symm.trans hread
    rfl
  · rename_i e hread
    cases h.symm.trans hread
  · rename_i e hread
    cases h.symm.trans hread

/-- **Step.** A predicate is the first one of a text that it stands in front of. -/
theorem parseAll_append (hc : Node c p) (hr : startsWith isSpacing r = false) :
    parseAll (c ++ r) = (parseAll r).map (p :: ·) :=
  parseAll_of_read (parsePrefix_append hc hr)

/-- **Run.** Such texts make up a text that starts without spacing too, and are read in order. By
induction on the texts, as what follows a predicate must not start with spacing. -/
theorem parseAll_flatten {texts : List (List Char)} {ps : List Predicate}
    (h : List.Forall₂ (fun t p => startsWith isSpacing t = false ∧ Node t p) texts ps) :
    startsWith isSpacing texts.flatten = false ∧ parseAll texts.flatten = .ok ps := by
  induction h with
  | nil => exact ⟨rfl, parseAll_nil⟩
  | @cons t p texts ps ht htexts ih =>
    obtain ⟨hstart, hread⟩ := ih
    rw [List.flatten_cons, parseAll_append ht.2 hstart, hread]
    exact ⟨startsWith_append ht.1 hstart, rfl⟩

/-- **Self-delimiting.** What is read of a text is not empty and takes all spacing behind it. It is
read in the same way in front of every text that does not start with spacing, and also alone. So
texts of which each is one predicate are read one after the other when they are written one behind
the other. -/
theorem parsePrefix_selfDelimiting :
    (∀ s p r, parsePrefix s = .read p r → ∃ c, c ≠ [] ∧ s = c ++ r ∧
      startsWith isSpacing r = false ∧
      (∀ r', startsWith isSpacing r' = false → parsePrefix (c ++ r') = .read p r') ∧
      parse c = .ok p) ∧
    ∀ texts ps,
      List.Forall₂ (fun t p => startsWith isSpacing t = false ∧ parsePrefix t = .read p []) texts ps →
      parseAll texts.flatten = .ok ps := by
  refine ⟨fun s p r h => ?_, fun texts ps h => (parseAll_flatten (h.imp fun t p ht => ?_)).2⟩
  · obtain ⟨c, hne, hs, hc, hr⟩ := exists_extent h
    exact ⟨c, hne, hs, hr, fun r' => parsePrefix_append hc, parse_of_node hc⟩
  · obtain ⟨c, -, hs, hc, -⟩ := exists_extent ht.2
    rw [List.append_nil] at hs
    exact ⟨ht.1, hs ▸ hc⟩

/-- A comparison with spacing behind it, in front of a comma and of a digit; and in front of a block. -/
theorem parsePrefix_selfDelimiting_of_spaced :
    let p : Predicate := .comparison .eq "a" .null
    let q : Predicate := .logical .matchAny []
    (parsePrefix "eq:['a',null] ,x".toList = .read p ",x".toList ∧
      parsePrefix "eq:['a',null] 7".toList = .read p "7".toList) ∧
    parsePrefix "eq:['a',null] ".toList = .read p [] ∧
      parsePrefix "match_any:\x7b\x7d".toList = .read q [] ∧
      parseAll "eq:['a',null] match_any:\x7b\x7d".toList = .ok [p, q] := by
  intro p q
  have hcomma : parsePrefix "eq:['a',null] ,x".toList = .read p ",x".toList :=
    (node_of_comparison (by rfl)).trans rfl
  have hp : parsePrefix "eq:['a',null] ".toList = .read p [] :=
    (node_of_comparison (by rfl)).trans rfl
  have hq : parsePrefix "match_any:\x7b\x7d".toList = .read q [] :=
    node_eq_read_iff.2 ⟨_, .logical (.mk allSpacing_nil allSpacing_nil allSpacing_nil allSpacing_nil)
      (.empty allSpacing_nil), rfl, rfl⟩
  obtain ⟨c, -, hc, -, hbefore, -⟩ := parsePrefix_selfDelimiting.1 _ _ _ hcomma
  obtain rfl : "eq:['a',null] ".toList = c := List.append_cancel_right hc
  exact ⟨⟨hcomma, hbefore "7".toList rfl⟩, hp, hq,
    parsePrefix_selfDelimiting.2 ["eq:['a',null] ".toList, "match_any:\x7b\x7d".toList] [p, q]
      (.cons ⟨rfl, hp⟩ (.cons ⟨rfl, hq⟩ .nil))⟩

end Predicate
end JoinPlan
