import Mathlib.Data.List.Infix
import JoinPlan.Plan
/-!
# Insertion into a relation tree

A tree is seen through the names below each of its paths. Inserting a path adds at most one name
below each path, at the end, and leaves all other names where they are. What a whole list of paths
leaves in a tree follows by induction on the list.

Results:
* `contains_eq_isSome_nodeAt?`, `mem_namesAt_iff`: the paths of a tree are its nodes.
* `namesAt_insert`: what one insertion does to the names below a path.
* `mem_namesAt_ofPaths`, `contains_ofPaths`: a tree has the prefixes of the paths put into it.
-/
namespace JoinPlan.RelationTree

/-! ## Nodes -/

/-- The names of the children, from left to right. -/
def names (t : RelationTree) : List String := t.children.map (·.name)

/-- The node at the end of a path, taking the first child of each name. -/
def nodeAt? : List String → RelationTree → Option RelationTree
  | [], t => some t
  | name :: path, t => (t.child? name).bind (nodeAt? path)

/-- The names below the end of a path; there are none where the path is not in the tree. -/
def namesAt (path : List String) (t : RelationTree) : List String :=
  (nodeAt? path t).elim [] names

theorem contains_eq_isSome_nodeAt? (path : List String) (t : RelationTree) :
    contains path t = (nodeAt? path t).isSome := by
  induction path generalizing t with
  | nil => rfl
  | cons name path ih =>
    rw [contains, nodeAt?]
    cases t.child? name with
    | none => rfl
    | some c => exact ih c

theorem isSome_child?_iff {name : String} {t : RelationTree} :
    (t.child? name).isSome = true ↔ name ∈ t.names := by
  simp [child?, names, List.find?_isSome]

theorem namesAt_leaf (path : List String) (name : String) : namesAt path (leaf name) = [] := by
  cases path <;> rfl

theorem namesAt_cons (name : String) (path : List String) (t : RelationTree) :
    namesAt (name :: path) t = namesAt path ((t.child? name).getD (leaf name)) := by
  rw [namesAt, nodeAt?]
  cases t.child? name with
  | none => rw [Option.getD_none, namesAt_leaf]; rfl
  | some c => rfl

/-- A path leads to a node exactly if its last name is one below the rest of it. -/
theorem mem_namesAt_iff {path : List String} {name : String} {t : RelationTree} :
    name ∈ namesAt path t ↔ contains (path ++ [name]) t = true := by
  induction path generalizing t with
  | nil =>
    rw [contains_eq_isSome_nodeAt?]
    simp only [List.nil_append, nodeAt?, Option.isSome_bind, namesAt, Option.elim_some]
    rw [← isSome_child?_iff]
    cases t.child? name <;> simp
  | cons m path ih =>
    rw [namesAt_cons, List.cons_append, contains]
    cases t.child? m with
    | none => simp [namesAt_leaf]
    | some c => exact ih

/-! ## One insertion -/

section Siblings

variable {name : String} {f : RelationTree → RelationTree}

/-- Adds a name at the end, unless it is there. -/
def addName (ns : List String) (name : String) : List String :=
  if name ∈ ns then ns else ns ++ [name]

theorem map_name_changeNamed (hf : ∀ t, (f t).name = t.name) (ts : List RelationTree) :
    (changeNamed name f ts).map (·.name) = addName (ts.map (·.name)) name := by
  induction ts with
  | nil => simp [changeNamed, addName, hf, leaf]
  | cons t ts ih =>
    rw [changeNamed]
    by_cases h : t.name = name
    · simp [h, hf, addName]
    · rw [if_neg h, List.map_cons, ih, List.map_cons, addName, addName]
      have hmem : name ∈ t.name :: ts.map (·.name) ↔ name ∈ ts.map (·.name) := by
        rw [List.mem_cons, or_iff_right (Ne.symm h)]
      by_cases hm : name ∈ ts.map (·.name)
      · rw [if_pos hm, if_pos (hmem.2 hm)]
      · rw [if_neg hm, if_neg (mt hmem.1 hm), List.cons_append]

theorem find?_changeNamed (hf : ∀ t, (f t).name = t.name) (ts : List RelationTree) (n : String) :
    (changeNamed name f ts).find? (·.name = n) =
      if name = n then some (f ((ts.find? (·.name = name)).getD (leaf name)))
      else ts.find? (·.name = n) := by
  induction ts with
  | nil =>
    by_cases h : name = n
    · simp [changeNamed, hf, leaf, h]
    · simp [changeNamed, hf, leaf, h]
  | cons t ts ih =>
    rw [changeNamed]
    by_cases ht : t.name = name
    · by_cases h : name = n
      · simp [ht, hf, h]
      · simp [ht, hf, h]
    · by_cases h : name = n
      · subst h
        simp [ht, ih]
      · simp [ht, ih, h, List.find?_cons]

end Siblings

theorem names_insert_cons (name : String) (path : List String) (t : RelationTree) :
    (insert (name :: path) t).names = addName t.names name :=
  map_name_changeNamed (name_insert path) t.children

theorem child?_insert_cons (name : String) (path : List String) (t : RelationTree) (n : String) :
    (insert (name :: path) t).child? n =
      if name = n then some (insert path ((t.child? name).getD (leaf name))) else t.child? n :=
  find?_changeNamed (name_insert path) t.children n

/-- The name with which a path goes on behind another one. -/
def next? : List String → List String → Option String
  | [], [] => none
  | [], x :: _ => some x
  | _ :: _, [] => none
  | n :: p, m :: l => if m = n then next? p l else none

theorem next?_eq_some_iff {p l : List String} {x : String} :
    next? p l = some x ↔ p ++ [x] <+: l := by
  induction p generalizing l with
  | nil => cases l <;> simp [next?, List.cons_prefix_cons, eq_comm]
  | cons n p ih =>
    cases l with
    | nil => simp [next?]
    | cons m l =>
      rw [next?, List.cons_append, List.cons_prefix_cons, ← ih]
      by_cases h : m = n
      · simp [h]
      · simp [h, Ne.symm h]

/-- **Step.** An insertion adds the name with which the path goes on, and no other. -/
theorem namesAt_insert (p l : List String) (t : RelationTree) :
    namesAt p (insert l t) = (next? p l).elim (namesAt p t) (addName (namesAt p t)) := by
  induction p generalizing l t with
  | nil =>
    cases l with
    | nil => rfl
    | cons x l => exact names_insert_cons x l t
  | cons n p ih =>
    cases l with
    | nil => rfl
    | cons m l =>
      rw [namesAt_cons, namesAt_cons, child?_insert_cons, next?]
      by_cases h : m = n
      · rw [if_pos h, if_pos h, h, Option.getD_some, ih]
      · rw [if_neg h, if_neg h]
        rfl

/-! ## All insertions -/

theorem ofPaths_concat (paths : List (List String)) (path : List String) :
    ofPaths (paths ++ [path]) = insert path (ofPaths paths) := by
  rw [ofPaths, List.foldl_append]
  rfl

theorem mem_addName {ns : List String} {name x : String} :
    x ∈ addName ns name ↔ x ∈ ns ∨ x = name := by
  unfold addName
  split
  · rename_i h
    exact ⟨.inl, fun hx => hx.elim id fun e => e ▸ h⟩
  · simp

/-- **Run.** The names below a path are those with which some path goes on. -/
theorem mem_namesAt_ofPaths {paths : List (List String)} {p : List String} {x : String} :
    x ∈ namesAt p (ofPaths paths) ↔ ∃ l ∈ paths, p ++ [x] <+: l := by
  induction paths using List.reverseRecOn with
  | nil => simp [ofPaths, root, namesAt_leaf]
  | append_singleton paths l ih =>
    rw [ofPaths_concat, namesAt_insert]
    simp only [List.mem_append, List.mem_singleton, or_and_right, exists_or, exists_eq_left]
    rw [← ih, ← next?_eq_some_iff]
    cases next? p l with
    | none => simp
    | some y => rw [Option.elim_some, mem_addName, Option.some.injEq, eq_comm (a := x)]

/-- A tree has the prefixes of the paths that were put into it. -/
theorem contains_ofPaths {paths : List (List String)} {q : List String} :
    contains q (ofPaths paths) = true ↔ q = [] ∨ ∃ l ∈ paths, q <+: l := by
  cases q using List.reverseRecOn with
  | nil => simp [contains]
  | append_singleton p x =>
    rw [← mem_namesAt_iff, mem_namesAt_ofPaths]
    simp

end JoinPlan.RelationTree
