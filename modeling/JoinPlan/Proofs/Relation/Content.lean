import Mathlib.Data.Finset.Card
import JoinPlan.Proofs.Relation.Insertion
/-!
# What a relation tree contains

No two siblings of a tree that was built by insertion share a name, so every node has a path of its
own. The nodes are then counted by their paths, which are the prefixes of the paths put in.

Results:
* `UniqueSiblings.insert`, `uniqueSiblings_ofPaths`: no siblings share a name.
* `mem_paths_iff`, `nodup_paths`, `length_paths`: the list of all nodes, each by its path.
* `relationCount_ofPaths`: the count is that of the different prefixes.
* `Plan.relations_of_predicate`: the relations that the plan of a predicate contains.
-/
namespace JoinPlan
namespace RelationTree

/-! ## Siblings -/

/-- No two siblings share a name, at any depth. -/
inductive UniqueSiblings : RelationTree → Prop where
  | mk {t : RelationTree} (distinct : t.names.Nodup) (below : ∀ c ∈ t.children, UniqueSiblings c) :
    UniqueSiblings t

theorem nodup_addName {ns : List String} (h : ns.Nodup) (name : String) :
    (addName ns name).Nodup := by
  unfold addName
  split
  · exact h
  · rename_i hm
    rw [List.nodup_append]
    refine ⟨h, List.nodup_singleton name, fun x hx y hy => ?_⟩
    obtain rfl := List.mem_singleton.1 hy
    exact fun e => hm (e ▸ hx)

theorem mem_changeNamed {name : String} {f : RelationTree → RelationTree} {ts : List RelationTree}
    {c : RelationTree} (h : c ∈ changeNamed name f ts) :
    c ∈ ts ∨ c = f (leaf name) ∨ ∃ t ∈ ts, c = f t := by
  induction ts with
  | nil => exact .inr (.inl (List.mem_singleton.1 h))
  | cons t ts ih =>
    rw [changeNamed] at h
    split at h
    · rcases List.mem_cons.1 h with rfl | h
      · exact .inr (.inr ⟨t, by simp, rfl⟩)
      · exact .inl (List.mem_cons_of_mem t h)
    · rcases List.mem_cons.1 h with rfl | h
      · exact .inl (by simp)
      · rcases ih h with h | h | ⟨u, hu, h⟩
        · exact .inl (List.mem_cons_of_mem t h)
        · exact .inr (.inl h)
        · exact .inr (.inr ⟨u, List.mem_cons_of_mem t hu, h⟩)

theorem uniqueSiblings_leaf (name : String) : UniqueSiblings (leaf name) :=
  .mk (by simp [names, leaf]) (by simp [leaf])

/-- **Step.** An insertion goes through the siblings of a name or adds it, so none is doubled. -/
theorem UniqueSiblings.insert (path : List String) {t : RelationTree} (h : UniqueSiblings t) :
    UniqueSiblings (insert path t) := by
  induction path generalizing t with
  | nil => exact h
  | cons name path ih =>
    obtain ⟨hn, hc⟩ := h
    refine .mk ?_ fun c hmem => ?_
    · rw [names_insert_cons]
      exact nodup_addName hn name
    · rcases mem_changeNamed hmem with hmem | rfl | ⟨u, hu, rfl⟩
      · exact hc c hmem
      · exact ih (uniqueSiblings_leaf name)
      · exact ih (hc u hu)

/-- **Run.** No two siblings of a tree that is built by insertion share a name. -/
theorem uniqueSiblings_ofPaths (paths : List (List String)) : UniqueSiblings (ofPaths paths) := by
  induction paths using List.reverseRecOn with
  | nil => exact uniqueSiblings_leaf ""
  | append_singleton paths path ih =>
    rw [ofPaths_concat]
    exact ih.insert path

/-! ## All nodes -/

mutual

/-- The paths to all nodes below the root. -/
def paths : RelationTree → List (List String)
  | ⟨_, ts⟩ => pathsAll ts

def pathsAll : List RelationTree → List (List String)
  | [] => []
  | t :: ts => [t.name] :: ((paths t).map (t.name :: ·) ++ pathsAll ts)

end

theorem paths_eq (t : RelationTree) : paths t = pathsAll t.children := by
  obtain ⟨name, ts⟩ := t
  rw [paths]

mutual

theorem length_paths : ∀ t : RelationTree, (paths t).length = t.relationCount
  | ⟨_, ts⟩ => by
    simp only [paths, relationCount]
    exact length_pathsAll ts

theorem length_pathsAll : ∀ ts : List RelationTree, (pathsAll ts).length = countAll ts
  | [] => rfl
  | t :: ts => by
    simp only [pathsAll, countAll, List.length_cons, List.length_append, List.length_map,
      length_paths t, length_pathsAll ts]
    omega

end

theorem mem_pathsAll_iff {ts : List RelationTree} {q : List String} :
    q ∈ pathsAll ts ↔ ∃ t ∈ ts, ∃ r, q = t.name :: r ∧ (r = [] ∨ r ∈ paths t) := by
  induction ts with
  | nil => simp [pathsAll]
  | cons t ts ih =>
    simp only [pathsAll, List.mem_cons, List.mem_append, List.mem_map, ih]
    constructor
    · intro h
      rcases h with rfl | ⟨r, hr, rfl⟩ | ⟨u, hu, r, rfl, hr⟩
      · exact ⟨t, .inl rfl, [], rfl, .inl rfl⟩
      · exact ⟨t, .inl rfl, r, rfl, .inr hr⟩
      · exact ⟨u, .inr hu, r, rfl, hr⟩
    · intro h
      obtain ⟨u, rfl | hu, r, rfl, hr⟩ := h
      · rcases hr with rfl | hr
        · exact .inl rfl
        · exact .inr (.inl ⟨r, hr, rfl⟩)
      · exact .inr (.inr ⟨u, hu, r, rfl, hr⟩)

theorem nil_not_mem_paths (t : RelationTree) : [] ∉ paths t := by
  rw [paths_eq, mem_pathsAll_iff]
  intro h
  obtain ⟨t, -, r, h, -⟩ := h
  cases h

theorem child?_eq_some_iff {t : RelationTree} (h : t.names.Nodup) {name : String}
    {c : RelationTree} : t.child? name = some c ↔ c ∈ t.children ∧ c.name = name := by
  constructor
  · intro hc
    exact ⟨List.mem_of_find?_eq_some hc, by simpa using List.find?_some hc⟩
  · intro h
    obtain ⟨hc, rfl⟩ := h
    cases hd : t.child? c.name with
    | none =>
      have := List.find?_eq_none.1 hd c hc
      simp at this
    | some d =>
      have hname : d.name = c.name := by simpa using List.find?_some hd
      rw [List.inj_on_of_nodup_map h (List.mem_of_find?_eq_some hd) hc hname]

/-- The list has the paths that the tree contains. -/
theorem mem_paths_iff {t : RelationTree} (h : UniqueSiblings t) {q : List String} :
    q ∈ paths t ↔ q ≠ [] ∧ contains q t = true := by
  induction h generalizing q with
  | @mk t hn hc ih =>
    cases q with
    | nil => simp [nil_not_mem_paths]
    | cons name r =>
      rw [paths_eq, mem_pathsAll_iff, contains]
      constructor
      · intro h
        obtain ⟨c, hmem, r, he, hr⟩ := h
        cases he
        rw [(child?_eq_some_iff hn).2 ⟨hmem, rfl⟩]
        refine ⟨by simp, ?_⟩
        rcases hr with rfl | hr
        · rfl
        · exact ((ih c hmem).1 hr).2
      · intro h
        obtain ⟨-, hr⟩ := h
        cases hd : t.child? name with
        | none => rw [hd] at hr; cases hr
        | some c =>
          rw [hd] at hr
          obtain ⟨hmem, rfl⟩ := (child?_eq_some_iff hn).1 hd
          refine ⟨c, hmem, r, rfl, ?_⟩
          by_cases hnil : r = []
          · exact .inl hnil
          · exact .inr ((ih c hmem).2 ⟨hnil, hr⟩)

theorem nodup_pathsAll {ts : List RelationTree} (hn : (ts.map (·.name)).Nodup)
    (hc : ∀ t ∈ ts, (paths t).Nodup) : (pathsAll ts).Nodup := by
  induction ts with
  | nil => simp [pathsAll]
  | cons t ts ih =>
    rw [List.map_cons, List.nodup_cons] at hn
    have hbelow : ((paths t).map (t.name :: ·)).Nodup :=
      (hc t (by simp)).map fun a b e => (List.cons.inj e).2
    -- what stands in another subtree starts with another name
    have hother : ∀ r, t.name :: r ∉ pathsAll ts := by
      intro r hr
      obtain ⟨u, hu, _, he, -⟩ := mem_pathsAll_iff.1 hr
      exact hn.1 (List.mem_map.2 ⟨u, hu, (List.cons.inj he).1.symm⟩)
    rw [pathsAll, List.nodup_cons, List.nodup_append]
    refine ⟨?_, hbelow, ih hn.2 fun u hu => hc u (List.mem_cons_of_mem t hu), ?_⟩
    · rw [List.mem_append, List.mem_map]
      intro h
      rcases h with ⟨r, hr, he⟩ | h
      · cases he
        exact nil_not_mem_paths t hr
      · exact hother [] h
    · rintro a ha b hb rfl
      obtain ⟨r, -, rfl⟩ := List.mem_map.1 ha
      exact hother r hb

/-- No path leads to two nodes. -/
theorem nodup_paths {t : RelationTree} (h : UniqueSiblings t) : (paths t).Nodup := by
  induction h with
  | @mk t hn hc ih =>
    rw [paths_eq]
    exact nodup_pathsAll hn ih

/-! ## Counting -/

/-- The prefixes of some paths, without the empty one. -/
def prefixes (paths : List (List String)) : Finset (List String) :=
  (paths.flatMap List.inits).toFinset.erase []

theorem mem_prefixes {paths : List (List String)} {q : List String} :
    q ∈ prefixes paths ↔ q ≠ [] ∧ ∃ l ∈ paths, q <+: l := by
  simp [prefixes]

theorem prefixes_eq_empty_iff {paths : List (List String)} :
    prefixes paths = ∅ ↔ ∀ l ∈ paths, l = [] := by
  rw [Finset.eq_empty_iff_forall_notMem]
  constructor
  · intro h l hl
    by_contra hne
    exact h l (mem_prefixes.2 ⟨hne, l, hl, List.prefix_rfl⟩)
  · intro h q hq
    obtain ⟨hne, l, hl, hp⟩ := mem_prefixes.1 hq
    rw [h l hl, List.prefix_nil] at hp
    exact hne hp

/-- Every prefix is a relation of its own, and there are no others. -/
theorem relationCount_ofPaths (paths : List (List String)) :
    (ofPaths paths).relationCount = (prefixes paths).card := by
  have hu := uniqueSiblings_ofPaths paths
  have hset : (RelationTree.paths (ofPaths paths)).toFinset = prefixes paths := by
    ext q
    rw [List.mem_toFinset, mem_paths_iff hu, contains_ofPaths, mem_prefixes]
    exact and_congr_right fun hne => or_iff_right hne
  rw [← length_paths, ← List.toFinset_card_of_nodup (nodup_paths hu), hset]

theorem isLeaf_iff_relationCount_eq_zero {t : RelationTree} :
    t.isLeaf = true ↔ t.relationCount = 0 := by
  obtain ⟨name, ts⟩ := t
  cases ts with
  | nil => simp [isLeaf, relationCount, countAll]
  | cons t ts => simp [isLeaf, relationCount, countAll]

end RelationTree

/-! ## Plans -/

/-- The canonical identifiers of a predicate, from left to right. -/
def Predicate.canonicalIdentifiers (aliases : Option AliasMap) (p : Predicate) : List String :=
  p.identifiers.map (resolveIdentifier aliases)

theorem Plan.tree_eq_ofPaths (aliases : Option AliasMap) (p : Predicate) :
    (Plan.ofPredicate aliases p).value.tree =
      .ofPaths ((p.canonicalIdentifiers aliases).map relationPath) := by
  rw [Plan.ofPredicate_tree, Predicate.canonicalIdentifiers, List.map_map]
  rfl

open RelationTree in
/-- **Content.** The plan of a predicate contains the relations that its canonical identifiers lead
over, each once. -/
theorem Plan.relations_of_predicate (aliases : Option AliasMap) (p : Predicate) :
    let plan := (Plan.ofPredicate aliases p).value
    let ids := p.canonicalIdentifiers aliases
    plan.tree.UniqueSiblings ∧
    (∀ q, contains q plan.tree = true ↔ q = [] ∨ ∃ id ∈ ids, q <+: relationPath id) ∧
    plan.tree.relationCount = (prefixes (ids.map relationPath)).card ∧
    (plan.tree.relationCount = 0 ↔ ∀ id ∈ ids, '.' ∉ id.toList) ∧
    (plan.isEmpty = true ↔ ∀ id ∈ ids, '.' ∉ id.toList) := by
  intro plan ids
  have htree : plan.tree = .ofPaths (ids.map relationPath) := Plan.tree_eq_ofPaths aliases p
  have hzero : plan.tree.relationCount = 0 ↔ ∀ id ∈ ids, '.' ∉ id.toList := by
    rw [htree, relationCount_ofPaths, Finset.card_eq_zero, prefixes_eq_empty_iff]
    simp only [List.forall_mem_map, relationPath_eq_nil_iff]
  refine ⟨?_, fun q => ?_, ?_, hzero, ?_⟩
  · rw [htree]
    exact uniqueSiblings_ofPaths _
  · rw [htree, contains_ofPaths]
    simp only [List.mem_map, exists_exists_and_eq_and]
  · rw [htree, relationCount_ofPaths]
  · rw [← hzero, Plan.isEmpty]
    exact isLeaf_iff_relationCount_eq_zero

end JoinPlan
