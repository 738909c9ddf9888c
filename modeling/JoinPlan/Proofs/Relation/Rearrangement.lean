import JoinPlan.Proofs.Relation.Content
/-!
# Trees up to the order of siblings

The paths that are put into a tree settle which relations it contains; only where siblings stand
depends on the order of the paths. So trees of paths with the same prefixes differ in the order of
siblings and in nothing else. A path that is in a tree already leaves it alone, whence paths that
are prefixes of earlier ones may as well be left out.

Results:
* `Rearranged.perm_paths`: trees that differ in the order of siblings have the same nodes.
* `rearranged_ofPaths_iff`: the trees of two lists of paths are such if the prefixes are the same.
* `insert_of_contains`: inserting what is there changes nothing.
* `ofPaths_withoutCovered`: a path that is a prefix of an earlier one adds nothing.
-/
namespace JoinPlan.RelationTree

/-! ## The order of siblings -/

/-- Equality up to the order of siblings at every depth: the children of the one tree can be paired
with those of the other so that each pair is equal up to the order of siblings. -/
inductive Rearranged : RelationTree → RelationTree → Prop where
  | mk {name : String} {ts us : List RelationTree} (pairs : List (RelationTree × RelationTree))
    (left : (pairs.map Prod.fst).Perm ts) (right : (pairs.map Prod.snd).Perm us)
    (below : ∀ x ∈ pairs, Rearranged x.1 x.2) : Rearranged ⟨name, ts⟩ ⟨name, us⟩

theorem Rearranged.name_eq {t u : RelationTree} (h : Rearranged t u) : t.name = u.name := by
  cases h
  rfl

/-- The paths to a node and to all nodes below it. -/
def pathsThrough (t : RelationTree) : List (List String) :=
  [t.name] :: (paths t).map (t.name :: ·)

theorem pathsAll_eq_flatMap (ts : List RelationTree) : pathsAll ts = ts.flatMap pathsThrough := by
  induction ts with
  | nil => rfl
  | cons t ts ih => rw [pathsAll, ih, List.flatMap_cons, pathsThrough, List.cons_append]

/-- Trees that differ in the order of siblings have the same nodes. -/
theorem Rearranged.perm_paths {t u : RelationTree} (h : Rearranged t u) :
    (paths t).Perm (paths u) := by
  induction h with
  | @mk name ts us pairs left right below ih =>
    have hpairs : ∀ x ∈ pairs, (pathsThrough x.1).Perm (pathsThrough x.2) := by
      intro x hx
      rw [pathsThrough, pathsThrough, (below x hx).name_eq]
      exact ((ih x hx).map _).cons _
    rw [paths_eq, paths_eq, pathsAll_eq_flatMap, pathsAll_eq_flatMap]
    have hmiddle : ((pairs.map Prod.fst).flatMap pathsThrough).Perm
        ((pairs.map Prod.snd).flatMap pathsThrough) := by
      rw [List.flatMap_map, List.flatMap_map]
      exact List.Perm.flatMap_left pairs hpairs
    exact (left.symm.flatMap_right _).trans (hmiddle.trans (right.flatMap_right _))

theorem Rearranged.relationCount_eq {t u : RelationTree} (h : Rearranged t u) :
    t.relationCount = u.relationCount := by
  rw [← length_paths, ← length_paths, h.perm_paths.length_eq]

theorem Rearranged.contains_eq {t u : RelationTree} (h : Rearranged t u) (ht : UniqueSiblings t)
    (hu : UniqueSiblings u) (q : List String) : contains q t = contains q u := by
  by_cases hq : q = []
  · rw [hq, contains_nil, contains_nil]
  · have hmem := h.perm_paths.mem_iff (a := q)
    rw [mem_paths_iff ht, mem_paths_iff hu, and_iff_right hq, and_iff_right hq] at hmem
    exact Bool.eq_iff_iff.2 hmem

/-! ## The same content -/

/-- The child with a name; a leaf where there is none. -/
def childNamed (t : RelationTree) (name : String) : RelationTree :=
  (t.child? name).getD (leaf name)

section

variable {t u : RelationTree} {name : String}

theorem child?_eq_childNamed (h : name ∈ t.names) : t.child? name = some (t.childNamed name) := by
  obtain ⟨c, hc⟩ := Option.isSome_iff_exists.1 (isSome_child?_iff.2 h)
  rw [childNamed, hc, Option.getD_some]

theorem contains_childNamed (h : name ∈ t.names) (q : List String) :
    contains q (t.childNamed name) = contains (name :: q) t := by
  rw [contains, child?_eq_childNamed h]

/-- Where no name is doubled, the children are known by their names. -/
theorem map_childNamed_names (hn : t.names.Nodup) : t.names.map t.childNamed = t.children := by
  have hself : ∀ c ∈ t.children, t.childNamed c.name = c := by
    intro c hc
    rw [childNamed, (child?_eq_some_iff hn).2 ⟨hc, rfl⟩, Option.getD_some]
  calc t.names.map t.childNamed
    _ = t.children.map fun c => t.childNamed c.name := List.map_map
    _ = t.children.map fun c => c := List.map_congr_left hself
    _ = t.children := List.map_id' _

theorem mem_names_iff : name ∈ t.names ↔ contains [name] t = true := by
  rw [← List.nil_append [name], ← mem_namesAt_iff]
  rfl

end

/-- **Same content.** Trees without doubled siblings that contain the same paths are equal up to the
order of siblings. By induction on the one tree; its children find their partners by name. -/
theorem rearranged_of_contains_eq {t u : RelationTree} (ht : UniqueSiblings t)
    (hu : UniqueSiblings u) (hname : t.name = u.name)
    (h : ∀ q, contains q t = contains q u) : Rearranged t u := by
  induction ht generalizing u with
  | @mk t hn hc ih =>
    obtain ⟨hn', hc'⟩ := hu
    have hnames : ∀ n, n ∈ t.names ↔ n ∈ u.names := by
      intro n
      rw [mem_names_iff, mem_names_iff, h]
    have hleft := map_childNamed_names hn
    have hright := map_childNamed_names hn'
    obtain ⟨name, ts⟩ := t
    obtain ⟨_, us⟩ := u
    obtain rfl := hname
    refine .mk ((names ⟨name, ts⟩).map fun n =>
      (childNamed ⟨name, ts⟩ n, childNamed ⟨name, us⟩ n)) ?_ ?_ ?_
    · rw [List.map_map]
      exact .of_eq hleft
    · rw [List.map_map]
      refine .trans (.map _ ((List.perm_ext_iff_of_nodup hn hn').2 hnames)) (.of_eq hright)
    · intro x hx
      obtain ⟨n, hmem, rfl⟩ := List.mem_map.1 hx
      have hmem' := (hnames n).1 hmem
      obtain ⟨hchild, hcname⟩ := (child?_eq_some_iff hn).1 (child?_eq_childNamed hmem)
      obtain ⟨hchild', hcname'⟩ := (child?_eq_some_iff hn').1 (child?_eq_childNamed hmem')
      refine ih _ hchild (hc' _ hchild') (hcname.trans hcname'.symm) fun q => ?_
      rw [contains_childNamed hmem, contains_childNamed hmem', h]

theorem name_ofPaths (paths : List (List String)) : (ofPaths paths).name = "" := by
  induction paths using List.reverseRecOn with
  | nil => rfl
  | append_singleton paths path ih => rw [ofPaths_concat, name_insert, ih]

/-- **Rearrangement.** The trees of two lists of paths are equal up to the order of siblings exactly
if the paths have the same prefixes. -/
theorem rearranged_ofPaths_iff {ps qs : List (List String)} :
    Rearranged (ofPaths ps) (ofPaths qs) ↔ prefixes ps = prefixes qs := by
  have hp := uniqueSiblings_ofPaths ps
  have hq := uniqueSiblings_ofPaths qs
  have hmem : ∀ ls q, q ∈ prefixes ls ↔ q ≠ [] ∧ contains q (ofPaths ls) = true := by
    intro ls q
    rw [mem_prefixes, contains_ofPaths]
    exact and_congr_right fun hne => (or_iff_right hne).symm
  constructor
  · intro h
    ext q
    rw [hmem, hmem, h.contains_eq hp hq]
  · intro h
    refine rearranged_of_contains_eq hp hq (by rw [name_ofPaths, name_ofPaths]) fun q => ?_
    by_cases hne : q = []
    · rw [hne, contains_nil, contains_nil]
    · have hiff := hmem ps q
      rw [h, hmem, and_iff_right hne, and_iff_right hne] at hiff
      exact (Bool.eq_iff_iff.2 hiff).symm

/-! ## What is there already -/

theorem changeNamed_eq_self {name : String} {f : RelationTree → RelationTree}
    {ts : List RelationTree} {c : RelationTree} (hc : ts.find? (·.name = name) = some c)
    (hf : f c = c) : changeNamed name f ts = ts := by
  induction ts with
  | nil => cases hc
  | cons t ts ih =>
    rw [changeNamed]
    by_cases h : t.name = name
    · simp only [List.find?_cons, h, decide_true, Option.some.injEq] at hc
      rw [if_pos h, hc, hf]
    · simp only [List.find?_cons, h, decide_false] at hc
      rw [if_neg h, ih hc]

/-- Inserting a path that is there changes nothing. -/
theorem insert_of_contains {path : List String} {t : RelationTree} (h : contains path t = true) :
    insert path t = t := by
  induction path generalizing t with
  | nil => rfl
  | cons name path ih =>
    obtain ⟨parent, ts⟩ := t
    rw [contains] at h
    cases hc : child? name ⟨parent, ts⟩ with
    | none => rw [hc] at h; cases h
    | some c =>
      rw [hc] at h
      rw [insert, changeNamed_eq_self hc (ih h)]

/-- The paths behind `before` that are no prefix of an earlier one. -/
def withoutCovered (before : List (List String)) : List (List String) → List (List String)
  | [] => []
  | path :: rest =>
    if ∃ l ∈ before, path <+: l then withoutCovered (before ++ [path]) rest
    else path :: withoutCovered (before ++ [path]) rest

/-- **Covered paths.** A path that is a prefix of an earlier one adds nothing, so the tree is that of
the other paths. By induction on the paths; those of `before` are in the tree. -/
theorem foldl_withoutCovered (before rest : List (List String)) :
    (withoutCovered before rest).foldl (fun t path => insert path t) (ofPaths before) =
      rest.foldl (fun t path => insert path t) (ofPaths before) := by
  induction rest generalizing before with
  | nil => rfl
  | cons path rest ih =>
    rw [List.foldl_cons, ← ofPaths_concat, withoutCovered]
    split
    · rename_i hcovered
      have hsame : ofPaths (before ++ [path]) = ofPaths before := by
        rw [ofPaths_concat, insert_of_contains (contains_ofPaths.2 (.inr hcovered))]
      rw [← ih, hsame]
    · rw [List.foldl_cons, ← ofPaths_concat, ih]

theorem ofPaths_withoutCovered (paths : List (List String)) :
    ofPaths (withoutCovered [] paths) = ofPaths paths :=
  foldl_withoutCovered [] paths

end JoinPlan.RelationTree
