import Mathlib.Data.List.Pairwise
import JoinPlan.Proofs.Plan.Rearrangement
import JoinPlan.Proofs.Plan.Warnings
import JoinPlan.Proofs.Relation.Leaves
/-!
# Plans by their leaf paths

The leaf paths of a plan are a shorter way to say what a predicate needs: none can be left out, and
inserting them does to any tree what inserting all relation paths of the predicate does. The
exception is a relation path that starts with an unnamed relation and goes on, for that start is not
written.

Results:
* `Plan.segments_leafPaths`: what the segments of the leaf paths are.
* `Plan.not_startsUnnamed_of_strict`: strict rules let no such path pass.
* `Plan.leafPaths_describe`: when leaf paths describe a plan.
-/
namespace JoinPlan.Plan
open RelationTree

section

variable {aliases : Option AliasMap} {p : Predicate} {route : List String}

theorem tree_eq_ofPaths_relationPaths (aliases : Option AliasMap) (p : Predicate) :
    (ofPredicate aliases p).value.tree = ofPaths (p.relationPaths aliases) :=
  tree_eq_ofPaths aliases p

/-- A route to a leaf is the beginning of a relation path, and has at least one name. -/
theorem exists_relationPath_of_mem_routesAll
    (h : route ∈ routesAll (ofPaths (p.relationPaths aliases)).children) :
    route ≠ [] ∧ ∃ l ∈ p.relationPaths aliases, route <+: l := by
  have hpath := mem_paths_of_mem_routesAll _ route h
  obtain ⟨hne, hcontains⟩ := (mem_paths_iff (uniqueSiblings_ofPaths _)).1 hpath
  exact ⟨hne, (contains_ofPaths.1 hcontains).resolve_left hne⟩

theorem segments_leafPaths (aliases : Option AliasMap) (p : Predicate) :
    (ofPredicate aliases p).value.tree.leafPaths.map segments =
      (routesAll (ofPredicate aliases p).value.tree.children).map readable := by
  rw [leafPaths_eq, List.map_map, tree_eq_ofPaths_relationPaths]
  refine List.map_congr_left fun route hroute => segments_written fun n hn => ?_
  obtain ⟨-, l, hl, hprefix⟩ := exists_relationPath_of_mem_routesAll hroute
  obtain ⟨id, -, rfl⟩ := List.mem_map.1 hl
  exact not_mem_of_mem_segments (List.mem_of_mem_dropLast (List.IsPrefix.subset hprefix hn))

/-- Where no relation path starts with an unnamed relation and goes on, routes can be read. -/
theorem segments_leafPaths_of_not_startsUnnamed
    (h : ∀ l ∈ p.relationPaths aliases, startsUnnamed l = false) :
    (ofPredicate aliases p).value.tree.leafPaths.map segments =
      routesAll (ofPredicate aliases p).value.tree.children := by
  rw [segments_leafPaths, tree_eq_ofPaths_relationPaths]
  refine (List.map_congr_left fun route hroute => ?_).trans (List.map_id _)
  obtain ⟨hne, l, hl, hprefix⟩ := exists_relationPath_of_mem_routesAll hroute
  refine readable_eq_self (Bool.eq_false_iff.2 fun hstart => ?_) hne
  have hnot := h l hl
  rw [startsUnnamed_of_beginning hprefix hstart] at hnot
  cases hnot

/-- **Minimal.** Leaf paths of which all can be read are different, and none is the beginning of
another one. -/
theorem leafPaths_apart (h : ∀ l ∈ p.relationPaths aliases, startsUnnamed l = false) :
    (ofPredicate aliases p).value.tree.leafPaths.Pairwise fun a b =>
      Apart (segments a) (segments b) := by
  rw [← List.pairwise_map, segments_leafPaths_of_not_startsUnnamed h, tree_eq_ofPaths_relationPaths]
  exact pairwise_routesAll (uniqueSiblings_ofPaths _)

/-- **Complete.** Leaf paths of which all can be read make of any tree what the relation paths make
of it. -/
theorem insertAll_leafPaths (h : ∀ l ∈ p.relationPaths aliases, startsUnnamed l = false)
    (t : RelationTree) :
    insertAll (p.relationPaths aliases) t =
      insertAll ((ofPredicate aliases p).value.tree.leafPaths.map segments) t := by
  rw [segments_leafPaths_of_not_startsUnnamed h, insertAll_routesAll, insertAll_eq_graft, graft_eq,
    tree_eq_ofPaths_relationPaths]

/-- No leaf path leads over what is behind an unnamed relation at the start. -/
theorem ofPaths_leafPaths_ne {l : List String} (hl : l ∈ p.relationPaths aliases)
    (hstart : startsUnnamed l = true) :
    ofPaths ((ofPredicate aliases p).value.tree.leafPaths.map segments) ≠
      (ofPredicate aliases p).value.tree := by
  intro heq
  have hl' : contains l (ofPredicate aliases p).value.tree = true := by
    rw [tree_eq_ofPaths_relationPaths, contains_ofPaths]
    exact .inr ⟨l, hl, List.prefix_rfl⟩
  rw [← heq, contains_ofPaths, segments_leafPaths] at hl'
  rcases hl' with rfl | ⟨q, hq, hprefix⟩
  · cases hstart
  · obtain ⟨route, -, rfl⟩ := List.mem_map.1 hq
    have hreadable := startsUnnamed_of_beginning hprefix hstart
    rw [startsUnnamed_readable] at hreadable
    cases hreadable

theorem not_startsUnnamed_of_strict {plan : Plan} (h : (compile true aliases p).value = .ok plan) :
    ∀ l ∈ p.relationPaths aliases, startsUnnamed l = false := by
  intro l hl
  obtain ⟨id, hid, rfl⟩ := List.mem_map.1 hl
  rw [compile_value, ofIdentifiers_strict_eq_ok_iff] at h
  refine Bool.eq_false_iff.2 fun hstart => ?_
  have hempty : "" ∈ segments id := List.mem_of_mem_dropLast (mem_of_startsUnnamed hstart)
  exact hasEmptySegment_eq_false_iff.1 (h.1 id hid) hempty

end

/-- **Leaf paths.** If no relation path of a predicate starts with an unnamed relation and goes on,
which strict rules see to, the leaf paths of its plan are different, none is the beginning of
another one, and inserting them makes of every tree what inserting the relation paths makes of it:
of the tree without relations, the plan itself. If some relation path does start so, they never make
the plan. -/
theorem leafPaths_describe (aliases : Option AliasMap) (p : Predicate) :
    let tree := (ofPredicate aliases p).value.tree
    let paths := p.relationPaths aliases
    let described := tree.leafPaths.map segments
    ((∀ l ∈ paths, startsUnnamed l = false) →
      tree.leafPaths.Nodup ∧
      (∀ a ∈ tree.leafPaths, ∀ b ∈ tree.leafPaths, segments a <+: segments b → a = b) ∧
      (∀ t, insertAll paths t = insertAll described t) ∧ insertAll described root = tree) ∧
    ((∃ l ∈ paths, startsUnnamed l = true) → insertAll described root ≠ tree) ∧
    ((∃ plan, (compile true aliases p).value = .ok plan) →
      ∀ l ∈ paths, startsUnnamed l = false) := by
  intro tree paths described
  refine ⟨fun h => ?_, fun h => ?_, fun h => ?_⟩
  · have hapart := leafPaths_apart h
    have hsame := insertAll_leafPaths h
    have hsymm : Std.Symm fun a b : String => Apart (segments a) (segments b) :=
      ⟨fun a b hab => ⟨hab.2, hab.1⟩⟩
    refine ⟨hapart.imp ?_, fun a ha b hb hprefix => ?_, hsame, ?_⟩
    · rintro a _ hab rfl
      exact hab.1 List.prefix_rfl
    · by_contra hne
      exact (hapart.forall ha hb hne).1 hprefix
    · rw [← hsame root]
      exact (tree_eq_ofPaths_relationPaths aliases p).symm
  · obtain ⟨l, hl, hstart⟩ := h
    exact ofPaths_leafPaths_ne hl hstart
  · obtain ⟨plan, h⟩ := h
    exact not_startsUnnamed_of_strict h

/-- Unnamed relations behind a named one and at the end of a path leave a trace in leaf paths; one
with which a path starts and goes on does not. Strict rules refuse all of them. -/
theorem leafPaths_describe_of_gaps :
    let p : Predicate := .logical .matchAll [.comparison .geq "dept.salaries.amount" .null,
      .logical .matchAny [.comparison .eq ".name" .null, .comparison .lt "titles..from" .null],
      .comparison .neq "dept.name" .null]
    let hidden : Predicate := .comparison .eq ".dept.name" .null
    let strict : Predicate := .comparison .eq "dept.name" .null
    let tree := (ofPredicate none p).value.tree
    let t : RelationTree := ⟨"", [leaf "titles", ⟨"titles", [leaf ""]⟩]⟩
    ((∀ l ∈ p.relationPaths none, startsUnnamed l = false) ∧
      insertAll (p.relationPaths none) t = insertAll (tree.leafPaths.map segments) t) ∧
    ((∃ l ∈ hidden.relationPaths none, startsUnnamed l = true) ∧
      insertAll ((ofPredicate none hidden).value.tree.leafPaths.map segments) root ≠
        (ofPredicate none hidden).value.tree) ∧
    ((∃ plan, (compile true none strict).value = .ok plan) ∧
      ∀ l ∈ strict.relationPaths none, startsUnnamed l = false) := by
  intro p hidden strict tree t
  have hvisible : ∀ l ∈ p.relationPaths none, startsUnnamed l = false := by decide
  have hhidden : ∃ l ∈ hidden.relationPaths none, startsUnnamed l = true := by decide
  have hstrict : ∃ plan, (compile true none strict).value = .ok plan := ⟨_, rfl⟩
  obtain ⟨hdescribed, -, -⟩ := leafPaths_describe none p
  obtain ⟨-, hnever, -⟩ := leafPaths_describe none hidden
  obtain ⟨-, -, hnamed⟩ := leafPaths_describe none strict
  exact ⟨⟨hvisible, (hdescribed hvisible).2.2.1 t⟩, ⟨hhidden, hnever hhidden⟩,
    hstrict, hnamed hstrict⟩

end JoinPlan.Plan
