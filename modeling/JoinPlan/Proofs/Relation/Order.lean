import JoinPlan.Proofs.Relation.Content
/-!
# The order of siblings

A name is added behind its siblings, so at every depth siblings stand in the order in which the
paths first go through them. A later path may go on below a name that was added long before; it
changes no order that is there.

Results:
* `pairwise_firstThrough`: names that are further right were needed later.
* `Plan.siblings_in_order`: the children of every node in the plan of a predicate.
-/
namespace JoinPlan
namespace RelationTree

/-- Where the first of some paths stands that goes through `q`; their number, if none does. -/
def firstThrough (q : List String) (paths : List (List String)) : Nat :=
  paths.findIdx (q <+: ·)

section

variable {q path : List String} {paths : List (List String)}

theorem firstThrough_lt_length (h : ∃ l ∈ paths, q <+: l) : firstThrough q paths < paths.length :=
  List.findIdx_lt_length_of_exists (by simpa using h)

/-- A further path does not change which one was the first. -/
theorem firstThrough_concat_of_exists (h : ∃ l ∈ paths, q <+: l) :
    firstThrough q (paths ++ [path]) = firstThrough q paths := by
  have hlt : paths.findIdx (q <+: ·) < paths.length := firstThrough_lt_length h
  rw [firstThrough, List.findIdx_append, if_pos hlt]
  rfl

theorem firstThrough_concat_of_not_exists (h : ¬ ∃ l ∈ paths, q <+: l) (hq : q <+: path) :
    firstThrough q (paths ++ [path]) = paths.length := by
  have hnone : paths.findIdx (q <+: ·) = paths.length :=
    List.findIdx_eq_length.2 fun l hl => decide_eq_false fun hp => h ⟨l, hl, hp⟩
  rw [firstThrough, List.findIdx_append, hnone, if_neg (Nat.lt_irrefl _)]
  simp [hq]

end

/-- The names below a path are in the order of the paths that brought them. By induction on the
paths: the last one brings at most one name, behind all others, and no other path brought it. -/
theorem pairwise_firstThrough (p : List String) (paths : List (List String)) :
    (namesAt p (ofPaths paths)).Pairwise fun x y =>
      firstThrough (p ++ [x]) paths < firstThrough (p ++ [y]) paths := by
  induction paths using List.reverseRecOn with
  | nil => simp [ofPaths, root, namesAt_leaf]
  | append_singleton paths l ih =>
    have hkeep : (namesAt p (ofPaths paths)).Pairwise fun x y =>
        firstThrough (p ++ [x]) (paths ++ [l]) < firstThrough (p ++ [y]) (paths ++ [l]) := by
      refine ih.imp_of_mem fun hx hy h => ?_
      rw [firstThrough_concat_of_exists (mem_namesAt_ofPaths.1 hx),
        firstThrough_concat_of_exists (mem_namesAt_ofPaths.1 hy)]
      exact h
    rw [ofPaths_concat, namesAt_insert]
    cases hnext : next? p l with
    | none => exact hkeep
    | some z =>
      rw [Option.elim_some, addName]
      split
      · exact hkeep
      · rename_i hz
        rw [mem_namesAt_ofPaths] at hz
        rw [List.pairwise_append]
        refine ⟨hkeep, List.pairwise_singleton _ z, fun x hx y hy => ?_⟩
        obtain rfl := List.mem_singleton.1 hy
        have hex := mem_namesAt_ofPaths.1 hx
        rw [firstThrough_concat_of_exists hex,
          firstThrough_concat_of_not_exists hz (next?_eq_some_iff.1 hnext)]
        exact firstThrough_lt_length hex

end RelationTree

open RelationTree in
/-- **First sight.** The children of a node in the plan of a predicate are the relations with which
the paths of the canonical identifiers go on there, each once, in the order of the first path that
goes through them. -/
theorem Plan.siblings_in_order (aliases : Option AliasMap) (p : Predicate) {path : List String}
    {node : RelationTree}
    (h : nodeAt? path (Plan.ofPredicate aliases p).value.tree = some node) :
    let paths := (p.canonicalIdentifiers aliases).map relationPath
    node.names.Nodup ∧
    (∀ x, x ∈ node.names ↔ ∃ l ∈ paths, path ++ [x] <+: l) ∧
    node.names.Pairwise fun x y =>
      firstThrough (path ++ [x]) paths < firstThrough (path ++ [y]) paths := by
  intro paths
  rw [Plan.tree_eq_ofPaths] at h
  have hnames : node.names = namesAt path (ofPaths paths) := by rw [namesAt, h]; rfl
  have hsorted := pairwise_firstThrough path paths
  rw [hnames]
  refine ⟨hsorted.imp fun hlt heq => ?_, fun x => mem_namesAt_ofPaths, hsorted⟩
  rw [heq] at hlt
  exact Nat.lt_irrefl _ hlt

open RelationTree in
/-- The third comparison goes on below a relation of the first one. -/
theorem Plan.siblings_in_order_of_late_branch :
    let p : Predicate := .logical .matchAll [.comparison .geq "a.b.x" .null,
      .logical .matchAny [.comparison .eq "c.y" .null, .comparison .lt "a.d.z" .null]]
    let paths := (p.canonicalIdentifiers none).map relationPath
    let node : RelationTree := ⟨"a", [leaf "b", leaf "d"]⟩
    nodeAt? ["a"] (Plan.ofPredicate none p).value.tree = some node ∧
    node.names.Pairwise fun x y =>
      firstThrough (["a"] ++ [x]) paths < firstThrough (["a"] ++ [y]) paths := by
  intro p paths node
  have h : nodeAt? ["a"] (Plan.ofPredicate none p).value.tree = some node := by rfl
  exact ⟨h, (Plan.siblings_in_order none p h).2.2⟩

end JoinPlan
