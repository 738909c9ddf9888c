import JoinPlan.Proofs.Relation.Rearrangement
/-!
# One plan for many ways to write a predicate

A plan depends on the relation paths of a predicate and on nothing else that is written. Which
relations it has is settled by the set of their prefixes, and the order of siblings by the paths
that are no prefix of an earlier one.

Results:
* `Predicate.Rewritten.field`: another field of the same relation will do.
* `Predicate.Rewritten.mem_relationPaths_iff`: rearranging a predicate keeps the set of its paths.
* `Plan.plan_of_relationPaths`: when two predicates have one plan, up to the order of siblings and
  with it.
-/
namespace JoinPlan
open RelationTree

namespace Predicate

/-- The relation paths of the canonical identifiers, from left to right. -/
def relationPaths (aliases : Option AliasMap) (p : Predicate) : List (List String) :=
  (p.canonicalIdentifiers aliases).map relationPath

/-- Two ways to write one choice of relations. Constraints may be permuted, repeated, put into a node
of their own and taken out of it; operators and values do not matter, and of an identifier only its
path does, which is all but its field (`relationPath_eq_iff`). -/
inductive Rewritten (aliases : Option AliasMap) : Predicate → Predicate → Prop where
  | refl (p : Predicate) : Rewritten aliases p p
  | symm {p q : Predicate} : Rewritten aliases p q → Rewritten aliases q p
  | trans {p q r : Predicate} :
    Rewritten aliases p q → Rewritten aliases q r → Rewritten aliases p r
  | comparison {op op' : ComparisonOperator} {id id' : String} {v v' : Literal}
    (h : relationPath (resolveIdentifier aliases id) =
      relationPath (resolveIdentifier aliases id')) :
    Rewritten aliases (.comparison op id v) (.comparison op' id' v')
  | permuted {op op' : LogicalOperator} {cs ds : List Predicate} (h : cs.Perm ds) :
    Rewritten aliases (.logical op cs) (.logical op' ds)
  | repeated {op : LogicalOperator} {c : Predicate} {cs : List Predicate} :
    Rewritten aliases (.logical op (c :: cs)) (.logical op (c :: c :: cs))
  | nested {op : LogicalOperator} {p : Predicate} : Rewritten aliases p (.logical op [p])
  | flattened {op op' : LogicalOperator} {cs ds : List Predicate} :
    Rewritten aliases (.logical op (.logical op' cs :: ds)) (.logical op (cs ++ ds))
  | within {op : LogicalOperator} {c d : Predicate} {cs : List Predicate} :
    Rewritten aliases c d → Rewritten aliases (.logical op (c :: cs)) (.logical op (d :: cs))

theorem mem_allIdentifiers_iff {cs : List Predicate} {id : String} :
    id ∈ allIdentifiers cs ↔ ∃ c ∈ cs, id ∈ c.identifiers := by
  induction cs with
  | nil => simp [allIdentifiers]
  | cons c cs ih => simp [allIdentifiers, ih]

section

variable {aliases : Option AliasMap} {l : List String}

theorem mem_relationPaths_iff {p : Predicate} : l ∈ p.relationPaths aliases ↔
    ∃ id ∈ p.identifiers, relationPath (resolveIdentifier aliases id) = l := by
  simp [relationPaths, canonicalIdentifiers]

theorem mem_relationPaths_comparison {op : ComparisonOperator} {id : String} {v : Literal} :
    l ∈ relationPaths aliases (.comparison op id v) ↔
      relationPath (resolveIdentifier aliases id) = l := by
  simp [mem_relationPaths_iff, identifiers]

theorem mem_relationPaths_logical {op : LogicalOperator} {cs : List Predicate} :
    l ∈ relationPaths aliases (.logical op cs) ↔ ∃ c ∈ cs, l ∈ c.relationPaths aliases := by
  simp only [mem_relationPaths_iff, identifiers, mem_allIdentifiers_iff]
  grind

/-- A comparison may name another field of the relation, or of the root. -/
theorem Rewritten.field {op op' : ComparisonOperator} {id id' : String} {v v' : Literal}
    (h : ('.' ∉ (resolveIdentifier aliases id).toList ∧
        '.' ∉ (resolveIdentifier aliases id').toList) ∨
      ∃ before field field', '.' ∉ field.toList ∧ '.' ∉ field'.toList ∧
        resolveIdentifier aliases id = before ++ "." ++ field ∧
        resolveIdentifier aliases id' = before ++ "." ++ field') :
    Rewritten aliases (.comparison op id v) (.comparison op' id' v') :=
  .comparison (relationPath_eq_iff.2 h)

/-- Rearranging a predicate keeps the set of its paths. -/
theorem Rewritten.mem_relationPaths_iff {p q : Predicate} (h : Rewritten aliases p q) :
    l ∈ p.relationPaths aliases ↔ l ∈ q.relationPaths aliases := by
  induction h with
  | refl p => rfl
  | symm _ ih => exact ih.symm
  | trans _ _ ih ih' => exact ih.trans ih'
  | comparison h => rw [mem_relationPaths_comparison, mem_relationPaths_comparison, h]
  | permuted h => simp only [mem_relationPaths_logical, h.mem_iff]
  | repeated => simp [mem_relationPaths_logical]
  | nested => simp [mem_relationPaths_logical]
  | flattened => simp [mem_relationPaths_logical, or_and_right, exists_or]
  | within _ ih => simp [mem_relationPaths_logical, ih]

theorem Rewritten.prefixes_eq {p q : Predicate} (h : Rewritten aliases p q) :
    prefixes (p.relationPaths aliases) = prefixes (q.relationPaths aliases) := by
  ext x
  simp only [mem_prefixes, h.mem_relationPaths_iff]

end

end Predicate

/-- **One plan.** Two predicates, each with its aliases, have plans that are equal up to the order of
siblings exactly if their relation paths have the same prefixes (the empty path, which is in every
plan, is not counted). Such plans agree in the number of relations, in whether there are any and in
which paths are in them, and rearranging a predicate leads to such a plan. The plans and their
expressions are equal if the paths are the same, less those that are a prefix of an earlier one. -/
theorem Plan.plan_of_relationPaths (aliases aliases' : Option AliasMap) (p p' : Predicate) :
    let plan := (ofPredicate aliases p).value
    let plan' := (ofPredicate aliases' p').value
    let paths := p.relationPaths aliases
    let paths' := p'.relationPaths aliases'
    (plan.tree.Rearranged plan'.tree ↔ prefixes paths = prefixes paths') ∧
    (prefixes paths = prefixes paths' →
      plan.tree.relationCount = plan'.tree.relationCount ∧ plan.isEmpty = plan'.isEmpty ∧
      ∀ q, contains q plan.tree = contains q plan'.tree) ∧
    (∀ q, p.Rewritten aliases q → prefixes paths = prefixes (q.relationPaths aliases)) ∧
    (withoutCovered [] paths = withoutCovered [] paths' →
      plan = plan' ∧ plan.expression = plan'.expression) := by
  intro plan plan' paths paths'
  have hplan : plan = ⟨ofPaths paths⟩ := congrArg Plan.mk (tree_eq_ofPaths aliases p)
  have hplan' : plan' = ⟨ofPaths paths'⟩ := congrArg Plan.mk (tree_eq_ofPaths aliases' p')
  have hiff : plan.tree.Rearranged plan'.tree ↔ prefixes paths = prefixes paths' := by
    rw [hplan, hplan', rearranged_ofPaths_iff]
  refine ⟨hiff, fun h => ?_, fun q hq => hq.prefixes_eq, fun h => ?_⟩
  · have hsame := hiff.2 h
    have hcount := hsame.relationCount_eq
    refine ⟨hcount, ?_, ?_⟩
    · rw [isEmpty, isEmpty, Bool.eq_iff_iff, isLeaf_iff_relationCount_eq_zero,
        isLeaf_iff_relationCount_eq_zero, hcount]
    · rw [hplan, hplan'] at hsame ⊢
      exact hsame.contains_eq (uniqueSiblings_ofPaths _) (uniqueSiblings_ofPaths _)
  · have heq : plan = plan' := by
      rw [hplan, hplan', ← ofPaths_withoutCovered paths, h, ofPaths_withoutCovered]
    exact ⟨heq, congrArg expression heq⟩

/-- An alias and a path that is covered by its path against other fields of the same relations, and
the constraints of the first predicate in another order, one of them with another field. -/
theorem Plan.plan_of_relationPaths_of_covered :
    let aliases := some (AliasMap.ofList [("pay", "dept.salaries.amount")])
    let pay : Predicate := .comparison .geq "pay" .null
    let names : Predicate := .logical .matchAny
      [.comparison .eq "titles.name" .null, .comparison .lt "dept.name" .null]
    let p : Predicate := .logical .matchAll [pay, names]
    let names' : Predicate := .logical .matchAny
      [.comparison .lt "titles.since" .null, .comparison .lt "dept.name" .null]
    let q : Predicate := .logical .matchAny [names', pay]
    let p' : Predicate := .logical .matchAny
      [.comparison .lt "dept.salaries.from" .null, .comparison .neq "titles.to" .null]
    (withoutCovered [] (p.relationPaths aliases) = withoutCovered [] (p'.relationPaths none) ∧
      (ofPredicate aliases p).value.expression = (ofPredicate none p').value.expression) ∧
    (p.Rewritten aliases q ∧
      (ofPredicate aliases p).value.tree.Rearranged (ofPredicate aliases q).value.tree) := by
  intro aliases pay names p names' q p'
  have hcovered : withoutCovered [] (p.relationPaths aliases) =
      withoutCovered [] (p'.relationPaths none) := by decide
  have hnames : names.Rewritten aliases names' :=
    .within (.field (.inr ⟨"titles", "name", "since", by decide, by decide, by decide, by decide⟩))
  have hrewritten : p.Rewritten aliases q := .trans (.permuted (.swap names pay [])) (.within hnames)
  obtain ⟨-, -, hsame, hequal⟩ := plan_of_relationPaths aliases none p p'
  obtain ⟨hiff, -⟩ := plan_of_relationPaths aliases aliases p q
  exact ⟨⟨hcovered, (hequal hcovered).2⟩, hrewritten, hiff.2 (hsame q hrewritten)⟩

end JoinPlan
