import JoinPlan.Proofs.Plan.Identifiers
import JoinPlan.Proofs.Relation.Decoding
/-!
# What an expression says about a plan

Strict rules keep relations without a name out of a plan, and a segment has no dot in it. The other
three marks may stand in a name, and then an expression may be that of several trees. Where they do
not, a strict plan is known from its expression.

Results:
* `isPlain_ofPaths`: paths of plain names make a tree with plain names.
* `Plan.isPlain_of_compile`: a strict plan has plain names if its relations have no mark in them.
* `Plan.tree_eq_of_expression_eq`: equal expressions of such plans are expressions of one tree.
* `Plan.ambiguous_of_marks`: each of the three marks makes expressions ambiguous.
-/
namespace JoinPlan
namespace RelationTree

/-- **Step.** Inserting a path of plain names leaves all names below the root plain. -/
theorem hasPlainNames_insert {path : List String} (hpath : ∀ n ∈ path, isPlainName n.toList = true)
    {t : RelationTree} (h : ∀ c ∈ t.children, c.hasPlainNames = true) :
    ∀ c ∈ (insert path t).children, c.hasPlainNames = true := by
  induction path generalizing t with
  | nil => exact h
  | cons name path ih =>
    obtain ⟨hname, hpath⟩ := List.forall_mem_cons.1 hpath
    intro c hc
    rcases mem_changeNamed hc with hc | rfl | ⟨u, hu, rfl⟩
    · exact h c hc
    · rw [hasPlainNames_iff, name_insert]
      exact ⟨hname, ih hpath (by simp [leaf])⟩
    · obtain ⟨huname, hbelow⟩ := hasPlainNames_iff.1 (h u hu)
      rw [hasPlainNames_iff, name_insert]
      exact ⟨huname, ih hpath hbelow⟩

/-- **Run.** Paths of plain names make a tree with plain names. -/
theorem isPlain_ofPaths {paths : List (List String)}
    (h : ∀ path ∈ paths, ∀ n ∈ path, isPlainName n.toList = true) :
    (ofPaths paths).isPlain = true := by
  induction paths using List.reverseRecOn with
  | nil => rfl
  | append_singleton paths path ih =>
    obtain ⟨hroot, hbelow⟩ := isPlain_iff.1 (ih fun l hl => h l (by simp [hl]))
    rw [ofPaths_concat, isPlain_iff, name_insert]
    exact ⟨hroot, hasPlainNames_insert (h path (by simp)) hbelow⟩

end RelationTree

open RelationTree

/-- A relation is plain if the identifier has no empty segment and the name none of the marks that a
segment can have. -/
theorem isPlainName_of_mem_relationPath {id name : String} (hid : hasEmptySegment id = false)
    (hmem : name ∈ relationPath id) (hmarks : ∀ c ∈ [',', '[', ']'], c ∉ name.toList) :
    isPlainName name.toList = true := by
  have hseg : name ∈ segments id := List.mem_of_mem_dropLast hmem
  have hdot := not_mem_of_mem_segments hseg
  refine isPlainName_iff.2 ⟨?_, fun c hc => ?_⟩
  · intro hempty
    obtain rfl := String.toList_eq_nil_iff.1 hempty
    exact hasEmptySegment_eq_false_iff.1 hid hseg
  · by_contra hmark
    simp only [isMark, Bool.not_eq_false, Bool.or_eq_true, decide_eq_true_eq] at hmark
    rcases hmark with ((rfl | rfl) | rfl) | rfl
    · exact hdot hc
    · exact hmarks ',' (by simp) hc
    · exact hmarks '[' (by simp) hc
    · exact hmarks ']' (by simp) hc

namespace Plan

/-- Whether no relation that a predicate leads over has a comma or a bracket in its name. -/
def Unmarked (aliases : Option AliasMap) (p : Predicate) : Prop :=
  ∀ id ∈ p.canonicalIdentifiers aliases, ∀ name ∈ relationPath id,
    ∀ c ∈ [',', '[', ']'], c ∉ name.toList

instance (aliases : Option AliasMap) (p : Predicate) : Decidable (Unmarked aliases p) :=
  -- the three marks are tried, and not all characters
  have (name : String) : Decidable (∀ c ∈ [',', '[', ']'], c ∉ name.toList) :=
    List.decidableBAll _ _
  inferInstanceAs (Decidable (∀ id ∈ p.canonicalIdentifiers aliases, ∀ name ∈ relationPath id,
    ∀ c ∈ [',', '[', ']'], c ∉ name.toList))

theorem isPlain_of_compile {aliases : Option AliasMap} {p : Predicate} {plan : Plan}
    (hc : (compile true aliases p).value = .ok plan) (hm : Unmarked aliases p) :
    plan.tree.isPlain = true := by
  rw [compile_value, ofIdentifiers_strict_eq_ok_iff] at hc
  obtain ⟨hsegments, htree⟩ := hc
  rw [htree]
  refine isPlain_ofPaths fun path hpath name hname => ?_
  obtain ⟨id, hid, rfl⟩ := List.mem_map.1 hpath
  exact isPlainName_of_mem_relationPath (hsegments id hid) hname (hm id hid name hname)

/-- **Unambiguous.** Two strict plans with one expression have one tree, whatever predicates and
aliases they come from, if no relation has a comma or a bracket in its name. -/
theorem tree_eq_of_expression_eq {aliases aliases' : Option AliasMap} {p p' : Predicate}
    {plan plan' : Plan} (hc : (compile true aliases p).value = .ok plan)
    (hc' : (compile true aliases' p').value = .ok plan') (hm : Unmarked aliases p)
    (hm' : Unmarked aliases' p') (h : plan.expression = plan'.expression) :
    plan.tree = plan'.tree :=
  eq_of_expression_eq (isPlain_of_compile hc hm) (isPlain_of_compile hc' hm') h

/-- A comparison through an alias, and comparisons without aliases in another nesting. -/
theorem tree_eq_of_expression_eq_alias :
    let aliases := some (AliasMap.ofList [("pay", "dept.salaries.amount")])
    let p : Predicate := .logical .matchAll [.comparison .geq "pay" .null,
      .comparison .eq "titles.name" .null]
    let p' : Predicate := .logical .matchAny [.logical .matchAll
      [.comparison .lt "dept.salaries.from" .null], .comparison .neq "titles.to" .null]
    ∃ plan plan', (compile true aliases p).value = .ok plan ∧
      (compile true none p').value = .ok plan' ∧ Unmarked aliases p ∧ Unmarked none p' ∧
      plan.expression = plan'.expression ∧ plan.tree = plan'.tree := by
  intro aliases p p'
  have hids : p.canonicalIdentifiers aliases = ["dept.salaries.amount", "titles.name"] := by decide
  have hc : (compile true aliases p).value =
      .ok ⟨⟨"", [⟨"dept", [leaf "salaries"]⟩, leaf "titles"]⟩⟩ := by
    rw [compile_value, hids]
    rfl
  have hc' : (compile true none p').value =
      .ok ⟨⟨"", [⟨"dept", [leaf "salaries"]⟩, leaf "titles"]⟩⟩ := rfl
  have hm : Unmarked aliases p := by decide
  have hm' : Unmarked none p' := by decide
  exact ⟨_, _, hc, hc', hm, hm', rfl, tree_eq_of_expression_eq hc hc' hm hm' rfl⟩

/-- Compares each of some fields with null. -/
def comparisons (ids : List String) : Predicate :=
  .logical .matchAll (ids.map fun id => .comparison .eq id .null)

/-- Whether comparisons of these and of those fields have strict plans with one expression and two
trees. -/
def Ambiguous (ids ids' : List String) : Prop :=
  ∃ plan plan', (compile true none (comparisons ids)).value = .ok plan ∧
    (compile true none (comparisons ids')).value = .ok plan' ∧
    plan.expression = plan'.expression ∧ plan.tree ≠ plan'.tree

/-- Without the condition on names it is not so: a list as a name, and names that differ in the use
of commas, of opening or of closing brackets. -/
theorem ambiguous_of_marks :
    Ambiguous ["[a,b].x"] ["a.x", "b.x"] ∧
    Ambiguous ["a,b.x", "c.x"] ["a.x", "b,c.x"] ∧
    Ambiguous ["a.[b.x", "c.x"] ["[a.b.x", "[a.c.x"] ∧
    Ambiguous ["a.b.x", "a.c.x", "d].x", "e.x"] ["a.b.x", "a.c].x", "a.d.x", "e.x"] := by
  refine ⟨⟨⟨⟨"", [leaf "[a,b]"]⟩⟩, ⟨⟨"", [leaf "a", leaf "b"]⟩⟩, rfl, rfl, rfl, ?_⟩,
    ⟨⟨⟨"", [leaf "a,b", leaf "c"]⟩⟩, ⟨⟨"", [leaf "a", leaf "b,c"]⟩⟩, rfl, rfl, rfl, ?_⟩,
    ⟨⟨⟨"", [⟨"a", [leaf "[b"]⟩, leaf "c"]⟩⟩, ⟨⟨"", [⟨"[a", [leaf "b", leaf "c"]⟩]⟩⟩, rfl, rfl, rfl,
      ?_⟩,
    ⟨⟨⟨"", [⟨"a", [leaf "b", leaf "c"]⟩, leaf "d]", leaf "e"]⟩⟩,
      ⟨⟨"", [⟨"a", [leaf "b", leaf "c]", leaf "d"]⟩, leaf "e"]⟩⟩, rfl, rfl, rfl, ?_⟩⟩
  all_goals simp [leaf]

end Plan
end JoinPlan
