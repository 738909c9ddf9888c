import JoinPlan.Proofs.Relation.Content
/-!
# Plans by canonical identifiers

Whether a predicate has a plan, and which one, depends on nothing but the list of its canonical
identifiers: strict rules look for the first one with an empty segment, and the tree takes their
paths in order.

Results:
* `firstEmptySegment_value`: which identifier is refused.
* `Plan.compile_value`: a plan is made from the canonical identifiers alone.
* `Plan.ofIdentifiers_strict_eq_ok_iff`: when strict rules let a plan pass.
* `Compiled.ofPredicate_value`, `Compiled.ofPredicate_eq_ok_iff`: what is compiled besides the
  canonical predicate.
-/
namespace JoinPlan

theorem firstEmptySegment_value (aliases : Option AliasMap) (ids : List String) :
    (firstEmptySegment aliases ids).value =
      (ids.map (resolveIdentifier aliases)).find? hasEmptySegment := by
  induction ids with
  | nil => rfl
  | cons id ids ih =>
    rw [firstEmptySegment, Logged.bind_value, List.map_cons, List.find?_cons]
    -- a look-up has the canonical form as its value
    change (if hasEmptySegment (resolveIdentifier aliases id) then
      return some (resolveIdentifier aliases id) else firstEmptySegment aliases ids).value = _
    cases hasEmptySegment (resolveIdentifier aliases id) with
    | true => rfl
    | false => exact ih

namespace Plan

/-- The plan of a predicate whose canonical identifiers are `ids`. -/
def ofIdentifiers (strict : Bool) (ids : List String) : Except CompileError Plan :=
  match if strict then ids.find? hasEmptySegment else none with
  | some id => .error (.emptySegment id)
  | none => .ok ⟨.ofPaths (ids.map relationPath)⟩

theorem compile_value (strict : Bool) (aliases : Option AliasMap) (p : Predicate) :
    (compile strict aliases p).value = ofIdentifiers strict (p.canonicalIdentifiers aliases) := by
  have hplan : (ofPredicate aliases p).value =
      ⟨.ofPaths ((p.canonicalIdentifiers aliases).map relationPath)⟩ := by
    rw [← tree_eq_ofPaths]
  rw [ofIdentifiers, ← hplan]
  cases strict with
  | false => rfl
  | true =>
    simp only [compile, ↓reduceIte, Logged.bind_value, firstEmptySegment_value]
    rw [← Predicate.canonicalIdentifiers]
    cases (p.canonicalIdentifiers aliases).find? hasEmptySegment with
    | none => rfl
    | some id => rfl

theorem ofIdentifiers_strict_eq_ok_iff {ids : List String} {plan : Plan} :
    ofIdentifiers true ids = .ok plan ↔
      (∀ id ∈ ids, hasEmptySegment id = false) ∧ plan.tree = .ofPaths (ids.map relationPath) := by
  rw [ofIdentifiers, if_pos rfl]
  split
  · rename_i id hid
    have hmem := List.mem_of_find?_eq_some hid
    have hempty : hasEmptySegment id = true := List.find?_some hid
    simp only [reduceCtorEq, false_iff, not_and]
    intro h
    rw [h id hmem] at hempty
    cases hempty
  · rename_i hnone
    simp only [Except.ok.injEq]
    constructor
    · rintro rfl
      exact ⟨by simpa using hnone, rfl⟩
    · rintro ⟨-, htree⟩
      rw [← htree]

end Plan

namespace Compiled

/-- What is compiled is the plan of the canonical identifiers, and the predicate in canonical form. -/
theorem ofPredicate_value (strict : Bool) (aliases : Option AliasMap) (p : Predicate) :
    (ofPredicate strict aliases p).value =
      (Plan.ofIdentifiers strict (p.canonicalIdentifiers aliases)).map
        fun plan => ⟨p.resolve aliases, plan⟩ := by
  rw [ofPredicate, Logged.bind_value, Plan.compile_value]
  cases Plan.ofIdentifiers strict (p.canonicalIdentifiers aliases) with
  | error e => rfl
  | ok plan => rfl

theorem ofPredicate_eq_ok_iff {strict : Bool} {aliases : Option AliasMap} {p : Predicate}
    {c : Compiled} : (ofPredicate strict aliases p).value = .ok c ↔
      Plan.ofIdentifiers strict (p.canonicalIdentifiers aliases) = .ok c.plan ∧
        c.predicate = p.resolve aliases := by
  rw [ofPredicate_value]
  cases Plan.ofIdentifiers strict (p.canonicalIdentifiers aliases) with
  | error e => simp [Except.map]
  | ok plan =>
    obtain ⟨q, plan'⟩ := c
    simp [Except.map, eq_comm, and_comm]

end Compiled
end JoinPlan
