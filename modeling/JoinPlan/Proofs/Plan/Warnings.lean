import JoinPlan.Proofs.Plan.Identifiers
/-!
# Warnings and refusals

Strict rules look for an empty segment before a tree is made, the other rules report each one while
they make it. The two walk over a predicate on their own and meet the same identifiers in the same
order, so what is refused is what would have been reported first.

Results:
* `Plan.warnings_compile`: the warnings without strict rules, in order.
* `Plan.compile_strict_eq_ok_iff`, `Plan.compile_strict_eq_error_iff`: what strict rules do instead.
* `Plan.name_ne_empty_of_strict`: strict rules let no relation without a name pass.
* `Plan.strict_iff_no_warning`: strict rules refuse exactly what the others warn about.
-/
namespace JoinPlan

/-! ## Empty segments -/

variable {ids : List String} {id : String}

theorem find?_hasEmptySegment_eq_some_iff : ids.find? hasEmptySegment = some id ↔
    ∃ before after, ids = before ++ id :: after ∧ "" ∈ segments id ∧
      ∀ id' ∈ before, "" ∉ segments id' := by
  simp only [List.find?_eq_some_iff_append, hasEmptySegment_iff, Bool.not_eq_true',
    hasEmptySegment_eq_false_iff]
  constructor
  · rintro ⟨hid, before, after, hids, hbefore⟩
    exact ⟨before, after, hids, hid, hbefore⟩
  · rintro ⟨before, after, hids, hid, hbefore⟩
    exact ⟨hid, before, after, hids, hbefore⟩

/-- What there is to report about canonical identifiers: each one that has an empty segment. -/
def emptySegmentWarnings (ids : List String) : List Event :=
  (ids.filter hasEmptySegment).map .emptySegment

theorem emptySegmentWarnings_append (ids ids' : List String) :
    emptySegmentWarnings (ids ++ ids') = emptySegmentWarnings ids ++ emptySegmentWarnings ids' := by
  rw [emptySegmentWarnings, List.filter_append, List.map_append]
  rfl

theorem emptySegmentWarnings_eq_nil_iff :
    emptySegmentWarnings ids = [] ↔ ∀ id ∈ ids, "" ∉ segments id := by
  simp only [emptySegmentWarnings, List.map_eq_nil_iff, List.filter_eq_nil_iff, hasEmptySegment_iff]

theorem head?_emptySegmentWarnings :
    (emptySegmentWarnings ids).head? = (ids.find? hasEmptySegment).map .emptySegment := by
  rw [emptySegmentWarnings, List.head?_map, List.head?_filter]

/-! ## What is reported -/

namespace Logged

variable {α β : Type}

/-- The warnings on the way to a value. -/
def warnings (x : Logged α) : List Event := x.events.filter (·.level = .warn)

theorem warnings_bind (x : Logged α) (f : α → Logged β) :
    (x >>= f).warnings = x.warnings ++ (f x.value).warnings :=
  List.filter_append _ _

end Logged

open Logged

variable (aliases : Option AliasMap)

/-- An alias is nothing to warn about. -/
theorem warnings_lookUp (id : String) : (lookUp aliases id).warnings = [] := by
  rw [lookUp, warnings]
  cases aliases.bind (·.get? id) <;> rfl

namespace RelationTree

/-- A new relation is nothing to warn about. -/
theorem warnings_addPath (t : RelationTree) (path : List String) :
    (t.addPath path).warnings = [] := by
  rw [addPath, warnings, List.filter_eq_nil_iff]
  intro event h
  obtain ⟨_, -, rfl⟩ := List.mem_map.1 h
  simp [Event.level]

/-- **Step.** An identifier is reported in its canonical form. -/
theorem warnings_addIdentifier (t : RelationTree) (id : String) :
    (addIdentifier aliases t id).warnings =
      emptySegmentWarnings [resolveIdentifier aliases id] := by
  have hvalue : (lookUp aliases id).value = resolveIdentifier aliases id := rfl
  rw [addIdentifier, warnings_bind, warnings_lookUp, hvalue, List.nil_append]
  cases hid : hasEmptySegment (resolveIdentifier aliases id) with
  | true =>
    rw [if_pos rfl, warnings_bind, warnings_addPath, emptySegmentWarnings, List.filter_singleton, hid]
    rfl
  | false =>
    rw [if_neg Bool.false_ne_true, warnings_addPath, emptySegmentWarnings, List.filter_singleton, hid]
    rfl

mutual

/-- **Run.** Identifiers are reported from left to right, whatever tree their paths are added to. -/
theorem warnings_addPredicate : ∀ (p : Predicate) (t : RelationTree),
    (addPredicate aliases p t).warnings =
      emptySegmentWarnings (p.identifiers.map (resolveIdentifier aliases))
  | .logical op cs, t => by
    rw [addPredicate, Predicate.identifiers]
    exact warnings_addConstraints cs t
  | .comparison op id v, t => by
    rw [addPredicate, Predicate.identifiers, List.map_singleton]
    exact warnings_addIdentifier aliases t id

theorem warnings_addConstraints : ∀ (ps : List Predicate) (t : RelationTree),
    (addConstraints aliases ps t).warnings =
      emptySegmentWarnings ((Predicate.allIdentifiers ps).map (resolveIdentifier aliases))
  | [], t => by
    rw [addConstraints, Predicate.allIdentifiers]
    rfl
  | p :: ps, t => by
    rw [addConstraints, warnings_bind, warnings_addPredicate p, warnings_addConstraints ps,
      Predicate.allIdentifiers, List.map_append, emptySegmentWarnings_append]

end

end RelationTree

namespace Plan
open RelationTree

theorem warnings_ofPredicate (p : Predicate) : (ofPredicate aliases p).warnings =
    emptySegmentWarnings (p.canonicalIdentifiers aliases) := by
  rw [ofPredicate, warnings_bind, warnings_addPredicate, Predicate.canonicalIdentifiers]
  -- the summary of the tree is no warning
  exact List.append_nil _

theorem warnings_compile (p : Predicate) : (compile false aliases p).warnings =
    emptySegmentWarnings (p.canonicalIdentifiers aliases) := by
  have hevents : (compile false aliases p).events =
      [] ++ ((ofPredicate aliases p).events ++ []) := rfl
  rw [List.nil_append, List.append_nil] at hevents
  rw [warnings, hevents]
  exact warnings_ofPredicate aliases p

/-! ## What is refused -/

variable {aliases} {p : Predicate} {plan : Plan} {e : CompileError}

theorem ofIdentifiers_eq_ok_iff :
    ofIdentifiers false ids = .ok plan ↔ plan.tree = .ofPaths (ids.map relationPath) := by
  constructor
  · rintro ⟨⟩
    rfl
  · obtain ⟨tree⟩ := plan
    rintro rfl
    rfl

theorem ofIdentifiers_strict_eq_error_iff : ofIdentifiers true ids = .error e ↔
    ∃ id, ids.find? hasEmptySegment = some id ∧ e = .emptySegment id := by
  rw [ofIdentifiers, if_pos rfl]
  cases ids.find? hasEmptySegment with
  | none => simp
  | some id => simp [eq_comm]

theorem compile_strict_eq_ok_iff : (compile true aliases p).value = .ok plan ↔
    (compile false aliases p).warnings = [] ∧ (compile false aliases p).value = .ok plan := by
  simp only [warnings_compile, emptySegmentWarnings_eq_nil_iff, compile_value,
    ofIdentifiers_strict_eq_ok_iff, ofIdentifiers_eq_ok_iff, hasEmptySegment_eq_false_iff]

theorem compile_strict_eq_error_iff : (compile true aliases p).value = .error e ↔
    ∃ before id after, p.canonicalIdentifiers aliases = before ++ id :: after ∧
      e = .emptySegment id ∧ "" ∈ segments id ∧ ∀ id' ∈ before, "" ∉ segments id' := by
  rw [compile_value, ofIdentifiers_strict_eq_error_iff]
  simp only [find?_hasEmptySegment_eq_some_iff]
  constructor
  · rintro ⟨id, ⟨before, after, hids, hid, hbefore⟩, he⟩
    exact ⟨before, id, after, hids, he, hid, hbefore⟩
  · rintro ⟨before, id, after, hids, he, hid, hbefore⟩
    exact ⟨id, ⟨before, after, hids, hid, hbefore⟩, he⟩

/-- Relations have their names from segments in front of the last one. -/
theorem exists_segment_of_mem_paths {path : List String} {name : String}
    (hpath : path ∈ (ofPaths (ids.map relationPath)).paths) (hname : name ∈ path) :
    ∃ id ∈ ids, name ∈ segments id := by
  obtain ⟨hne, hcontains⟩ := (mem_paths_iff (uniqueSiblings_ofPaths _)).1 hpath
  obtain ⟨l, hl, hpl⟩ := (contains_ofPaths.1 hcontains).resolve_left hne
  obtain ⟨id, hid, rfl⟩ := List.mem_map.1 hl
  exact ⟨id, hid, List.mem_of_mem_dropLast (hpl.subset hname)⟩

theorem name_ne_empty_of_strict (h : (compile true aliases p).value = .ok plan) :
    ∀ path ∈ plan.tree.paths, ∀ name ∈ path, name ≠ "" := by
  rintro path hpath name hname rfl
  rw [compile_value, ofIdentifiers_strict_eq_ok_iff] at h
  obtain ⟨hsegments, htree⟩ := h
  rw [htree] at hpath
  obtain ⟨id, hid, hempty⟩ := exists_segment_of_mem_paths hpath hname
  exact hasEmptySegment_eq_false_iff.1 (hsegments id hid) hempty

/-- **Strict rules.** A plan passes strict rules exactly if it is made without a warning otherwise, it
is the same plan, and no relation in it is without a name. What is refused is the first canonical
identifier with an empty segment, which is the first one that is warned about otherwise. There is one
such warning for each identifier of this kind, in the order in which they stand in the predicate. -/
theorem strict_iff_no_warning (aliases : Option AliasMap) (p : Predicate) :
    ((∃ plan, (compile true aliases p).value = .ok plan) ↔
      (compile false aliases p).warnings = []) ∧
    (∀ plan, (compile true aliases p).value = .ok plan →
      (compile false aliases p).value = .ok plan ∧
      ∀ path ∈ plan.tree.paths, ∀ name ∈ path, name ≠ "") ∧
    (∀ e, (compile true aliases p).value = .error e → ∃ before id after,
      p.canonicalIdentifiers aliases = before ++ id :: after ∧ e = .emptySegment id ∧
      "" ∈ segments id ∧ (∀ id' ∈ before, "" ∉ segments id') ∧
      (compile false aliases p).warnings.head? = some (.emptySegment id)) ∧
    (compile false aliases p).warnings =
      ((p.canonicalIdentifiers aliases).filter fun id => "" ∈ segments id).map .emptySegment := by
  refine ⟨⟨?_, fun h => ?_⟩, fun plan h => ?_, fun e h => ?_, ?_⟩
  · rintro ⟨plan, h⟩
    exact (compile_strict_eq_ok_iff.1 h).1
  · exact ⟨⟨.ofPaths ((p.canonicalIdentifiers aliases).map relationPath)⟩,
      compile_strict_eq_ok_iff.2 ⟨h, compile_value false aliases p⟩⟩
  · exact ⟨(compile_strict_eq_ok_iff.1 h).2, name_ne_empty_of_strict h⟩
  · obtain ⟨before, id, after, hids, he, hid, hbefore⟩ := compile_strict_eq_error_iff.1 h
    have hfirst := find?_hasEmptySegment_eq_some_iff.2 ⟨before, after, hids, hid, hbefore⟩
    refine ⟨before, id, after, hids, he, hid, hbefore, ?_⟩
    rw [warnings_compile, head?_emptySegmentWarnings, hfirst, Option.map_some]
  · rw [warnings_compile, emptySegmentWarnings]
    refine congrArg _ (List.filter_congr fun id _ => ?_)
    rw [Bool.eq_iff_iff, hasEmptySegment_iff, decide_eq_true_iff]

/-- An alias whose canonical form has an empty segment where the alias has none: the second comparison
is refused, though the third one is no better. Without these two a plan passes. -/
theorem strict_iff_no_warning_of_alias :
    let aliases := some (AliasMap.ofList [("pay", "dept..amount")])
    let first : Predicate := .comparison .geq "titles.name" .null
    let p : Predicate := .logical .matchAll [first,
      .logical .matchAny [.comparison .eq "pay" .null, .comparison .lt "dept." .null]]
    let plan : Plan := ⟨⟨"", [leaf "titles"]⟩⟩
    ((compile true aliases p).value = .error (.emptySegment "dept..amount") ∧
      (compile false aliases p).warnings.head? = some (.emptySegment "dept..amount")) ∧
    ((compile true aliases first).value = .ok plan ∧
      (compile false aliases first).value = .ok plan ∧
      ∀ path ∈ plan.tree.paths, ∀ name ∈ path, name ≠ "") := by
  intro aliases first p plan
  have hids : p.canonicalIdentifiers aliases = ["titles.name", "dept..amount", "dept."] := by decide
  have hrefused : (compile true aliases p).value = .error (.emptySegment "dept..amount") := by
    rw [compile_value, hids]
    rfl
  have hfirst : first.canonicalIdentifiers aliases = ["titles.name"] := by decide
  have hpassed : (compile true aliases first).value = .ok plan := by
    rw [compile_value, hfirst]
    rfl
  obtain ⟨-, -, hrefusal, -⟩ := strict_iff_no_warning aliases p
  obtain ⟨before, id, after, -, he, -, -, hwarned⟩ := hrefusal _ hrefused
  cases he
  obtain ⟨-, hplan, -, -⟩ := strict_iff_no_warning aliases first
  exact ⟨⟨hrefused, hwarned⟩, hpassed, hplan plan hpassed⟩

end Plan
end JoinPlan
