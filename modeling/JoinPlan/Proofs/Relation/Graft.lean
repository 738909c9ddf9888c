import JoinPlan.Proofs.Relation.Content
/-!
# Trees put into trees

A tree is put into another one child by child, each into the child of its name. That is what
inserting paths amounts to, whatever they are inserted into: all of them together are the tree that
they make.

Results:
* `insert_graft`: a path that is inserted afterwards could have been in the tree that was put in.
* `insertAll_eq_graft`: all paths of a list.
-/
namespace JoinPlan.RelationTree

/-- The tree with some paths below its root, inserted in their order. -/
def insertAll (paths : List (List String)) (t : RelationTree) : RelationTree :=
  paths.foldl (fun t path => t.insert path) t

mutual

/-- `u` with all that is below `t`. -/
def graft : RelationTree → RelationTree → RelationTree
  | ⟨_, ts⟩, u => ⟨u.name, graftAll ts u.children⟩

/-- Siblings with all of other siblings, each put into the first one with its name. -/
def graftAll : List RelationTree → List RelationTree → List RelationTree
  | [], us => us
  | t :: ts, us => graftAll ts (changeNamed t.name (graft t) us)

end

/-! ## Changes of siblings -/

section

variable {a b : String} {f g : RelationTree → RelationTree} {us : List RelationTree}

/-- Two changes under one name are one. -/
theorem changeNamed_changeNamed (hg : ∀ t, (g t).name = t.name) (us : List RelationTree) :
    changeNamed a f (changeNamed a g us) = changeNamed a (f ∘ g) us := by
  induction us with
  | nil => simp [changeNamed, hg, leaf]
  | cons u us ih =>
    by_cases h : u.name = a
    · simp [changeNamed, h, hg]
    · simp [changeNamed, h, ih]

/-- Changes under two names may be swapped if one of the names is there: it is only by adding both
that their order shows. -/
theorem changeNamed_comm (hab : a ≠ b) (hf : ∀ t, (f t).name = t.name)
    (hg : ∀ t, (g t).name = t.name) (ha : a ∈ us.map (·.name)) :
    changeNamed a f (changeNamed b g us) = changeNamed b g (changeNamed a f us) := by
  induction us with
  | nil => cases ha
  | cons u us ih =>
    by_cases hu : u.name = a
    · simp [changeNamed, hu, hf, hab]
    · have hmem : a ∈ us.map (·.name) := by
        simpa [Ne.symm hu] using ha
      by_cases hub : u.name = b
      · simp [changeNamed, hub, hg, Ne.symm hab]
      · simp [changeNamed, hu, hub, ih hmem]

end

/-! ## One more path -/

section

variable {name : String} {path : List String} {t u : RelationTree} {ts us : List RelationTree}

theorem name_graft (t u : RelationTree) : (graft t u).name = u.name := by
  obtain ⟨name, ts⟩ := t
  rw [graft]

theorem graft_eq (t u : RelationTree) : graft t u = ⟨u.name, graftAll t.children u.children⟩ := by
  obtain ⟨name, ts⟩ := t
  rw [graft]

theorem graft_leaf (name : String) (u : RelationTree) : graft (leaf name) u = u := by
  obtain ⟨root, us⟩ := u
  rw [leaf, graft, graftAll]

theorem mem_changeNamed_names (hus : name ∈ us.map (·.name)) (t : RelationTree) :
    name ∈ (changeNamed t.name (graft t) us).map (·.name) := by
  rw [map_name_changeNamed (name_graft t), mem_addName]
  exact .inl hus

/-- A change under a name that is there and is not put in may as well come first. -/
theorem changeNamed_graftAll {f : RelationTree → RelationTree} (hf : ∀ t, (f t).name = t.name)
    (hts : name ∉ ts.map (·.name)) (hus : name ∈ us.map (·.name)) :
    changeNamed name f (graftAll ts us) = graftAll ts (changeNamed name f us) := by
  induction ts generalizing us with
  | nil => rw [graftAll, graftAll]
  | cons t ts ih =>
    obtain ⟨hne, hts⟩ : name ≠ t.name ∧ name ∉ ts.map (·.name) := by
      simpa [not_or] using hts
    rw [graftAll, graftAll, ih hts (mem_changeNamed_names hus t),
      changeNamed_comm hne hf (name_graft t) hus]

/-- The siblings at the first name of a path, if the rest of it may be inserted into any of them
before or afterwards. By induction on the siblings that are put in; the one with the name is met
once. -/
theorem changeNamed_insert_graftAll
    (hrest : ∀ {t}, UniqueSiblings t → ∀ u, insert path (graft t u) = graft (insert path t) u)
    (hn : (ts.map (·.name)).Nodup) (hbelow : ∀ t ∈ ts, UniqueSiblings t) :
    changeNamed name (insert path) (graftAll ts us) =
      graftAll (changeNamed name (insert path) ts) us := by
  induction ts generalizing us with
  | nil =>
    have hnew : graft (insert path (leaf name)) = insert path := by
      funext v
      rw [← hrest (uniqueSiblings_leaf name), graft_leaf]
    rw [changeNamed, graftAll, graftAll, graftAll, name_insert, hnew]
    rfl
  | cons t ts ih =>
    obtain ⟨hnotin, hn⟩ := List.nodup_cons.1 hn
    obtain ⟨ht, hts⟩ := List.forall_mem_cons.1 hbelow
    rw [graftAll, changeNamed]
    by_cases h : t.name = name
    · subst h
      have hthere : t.name ∈ (changeNamed t.name (graft t) us).map (·.name) := by
        rw [map_name_changeNamed (name_graft t), mem_addName]
        exact .inr rfl
      have hboth : insert path ∘ graft t = graft (insert path t) := funext (hrest ht)
      rw [if_pos rfl, graftAll, changeNamed_graftAll (name_insert path) hnotin hthere,
        changeNamed_changeNamed (name_graft t), hboth, name_insert]
    · rw [if_neg h, graftAll, ih hn hts]

/-- **Step.** A path may be inserted into a tree before or after that is put into another one. -/
theorem insert_graft (path : List String) (ht : UniqueSiblings t) (u : RelationTree) :
    insert path (graft t u) = graft (insert path t) u := by
  induction path generalizing t u with
  | nil => rfl
  | cons name path ih =>
    obtain ⟨hn, hbelow⟩ := ht
    rw [graft_eq, insert, insert, graft_eq]
    exact congrArg (RelationTree.mk u.name) (changeNamed_insert_graftAll ih hn hbelow)

/-- **Run.** Inserting paths is putting in the tree that they make. -/
theorem insertAll_eq_graft (paths : List (List String)) (u : RelationTree) :
    insertAll paths u = graft (ofPaths paths) u := by
  induction paths using List.reverseRecOn with
  | nil => exact (graft_leaf "" u).symm
  | append_singleton paths path ih =>
    rw [ofPaths_concat, ← insert_graft path (uniqueSiblings_ofPaths paths), ← ih, insertAll,
      List.foldl_append]
    rfl

end

end JoinPlan.RelationTree
