import Mathlib.Data.List.Sublists
import JoinPlan.Proofs.Relation.Rearrangement
/-!
# What one insertion adds

The part of a path that a tree lacks becomes a chain of relations, one below the other, and the
whole chain is put behind the children of one node. This holds of every tree, also where siblings
share a name: an insertion follows the first of them, as a look-up does, and the others stay as they
are.

Results:
* `exists_insert_eq_appendAt`: an insertion appends at one place or, by `insert_of_contains`,
  nowhere.
* `exists_at?_appendAt`: what is there keeps its name and its place.
* `contains_insert`, `relationCount_insert`: which paths and how many relations are new.
* `insert_adds_missing`: all of it for one insertion.
-/
namespace JoinPlan.RelationTree

/-! ## Places -/

/-- The node at a place, which says for each level which child to go to, counted from zero. -/
def at? : List ℕ → RelationTree → Option RelationTree
  | [], t => some t
  | i :: place, t => t.children[i]?.bind (at? place)

/-- The tree with one more child of the node at a place, behind the other children. -/
def appendAt (new : RelationTree) : List ℕ → RelationTree → RelationTree
  | [], t => ⟨t.name, t.children ++ [new]⟩
  | i :: place, t => ⟨t.name, t.children.modify i (appendAt new place)⟩

/-- A relation with those of a path one below the other. -/
def chain (name : String) : List String → RelationTree
  | [] => leaf name
  | n :: path => ⟨name, [chain n path]⟩

section

variable {new t c node : RelationTree} {i : ℕ} {place q : List ℕ}

theorem name_appendAt (new : RelationTree) (place : List ℕ) (t : RelationTree) :
    (appendAt new place t).name = t.name := by
  cases place <;> rfl

theorem appendAt_cons (hc : t.children[i]? = some c) :
    appendAt new (i :: place) t = ⟨t.name, t.children.set i (appendAt new place c)⟩ := by
  rw [appendAt, List.modify_eq_set_getElem?, hc]
  rfl

theorem names_appendAt_cons (new : RelationTree) (i : ℕ) (place : List ℕ) (t : RelationTree) :
    (appendAt new (i :: place) t).names = t.names := by
  refine List.ext_getElem? fun j => ?_
  simp only [names, appendAt, List.getElem?_map, List.getElem?_modify, Functor.map, Option.map_map]
  refine congrArg (Option.map · _) (funext fun c => ?_)
  by_cases h : i = j
  · simp [h, name_appendAt]
  · simp [h]

/-- **Frame.** What is appended at one place leaves every other node where it was, with its name and
the names below it; at that place the new name comes last. -/
theorem exists_at?_appendAt (new : RelationTree) (place : List ℕ) (h : at? q t = some node) :
    ∃ node', at? q (appendAt new place t) = some node' ∧ node'.name = node.name ∧
      node'.names = if q = place then node.names ++ [new.name] else node.names := by
  induction q generalizing t place with
  | nil =>
    obtain rfl : t = node := Option.some.inj h
    refine ⟨appendAt new place t, rfl, name_appendAt new place t, ?_⟩
    cases place with
    | nil => simp [appendAt, names]
    | cons i place => rw [names_appendAt_cons, if_neg (by simp)]
  | cons i q ih =>
    obtain ⟨c, hc, hnode⟩ := Option.bind_eq_some_iff.1 h
    cases place with
    | nil =>
      obtain ⟨hi, -⟩ := List.getElem?_eq_some_iff.1 hc
      refine ⟨node, ?_, rfl, by rw [if_neg (by simp)]⟩
      rw [at?, appendAt, List.getElem?_append_left hi, hc]
      exact hnode
    | cons j place =>
      by_cases hij : i = j
      · subst hij
        obtain ⟨node', hnode', hname, hnames⟩ := ih place hnode
        refine ⟨node', ?_, hname, by simpa using hnames⟩
        rw [at?, appendAt, List.getElem?_modify, hc]
        simpa using hnode'
      · refine ⟨node, ?_, rfl, by rw [if_neg (by simp [hij])]⟩
        rw [at?, appendAt, List.getElem?_modify, hc]
        simpa [Ne.symm hij] using hnode

end

/-! ## The place of an insertion -/

section

variable {name : String} {ts : List RelationTree} {c t : RelationTree} {path : List String}

theorem changeNamed_of_absent (h : ts.find? (·.name = name) = none)
    (f : RelationTree → RelationTree) : changeNamed name f ts = ts ++ [f (leaf name)] := by
  induction ts with
  | nil => rfl
  | cons t ts ih =>
    obtain ⟨ht, hts⟩ := List.forall_mem_cons.1 (List.find?_eq_none.1 h)
    rw [changeNamed, if_neg (by simpa using ht), ih (List.find?_eq_none.2 hts), List.cons_append]

/-- The child that is looked up is the one that is changed. -/
theorem exists_changeNamed_eq_set (h : ts.find? (·.name = name) = some c) :
    ∃ i, ts[i]? = some c ∧ ∀ f, changeNamed name f ts = ts.set i (f c) := by
  induction ts with
  | nil => cases h
  | cons t ts ih =>
    by_cases ht : t.name = name
    · obtain rfl : t = c := by simpa [List.find?_cons, ht] using h
      exact ⟨0, rfl, fun f => by rw [changeNamed, if_pos ht]; rfl⟩
    · obtain ⟨i, hi, hset⟩ := ih (by simpa [List.find?_cons, ht] using h)
      exact ⟨i + 1, hi, fun f => by rw [changeNamed, if_neg ht, hset]; rfl⟩

theorem insert_leaf (name : String) (path : List String) :
    insert path (leaf name) = chain name path := by
  induction path generalizing name with
  | nil => rfl
  | cons n path ih => rw [insert, leaf, changeNamed, ih, chain]

/-- **One place.** A path that is not in a tree is followed as far as it goes, and the rest becomes
a chain behind the children of the node that is reached. By induction on the path, which goes down
one level at each name. -/
theorem exists_insert_eq_appendAt (h : contains path t = false) :
    ∃ before name rest place node, path = before ++ name :: rest ∧
      nodeAt? before t = some node ∧ at? place t = some node ∧ name ∉ node.names ∧
      insert path t = appendAt (chain name rest) place t := by
  induction path generalizing t with
  | nil => cases h
  | cons n path ih =>
    rw [contains] at h
    cases hc : t.child? n with
    | none =>
      have habsent : n ∉ t.names := by
        rw [← isSome_child?_iff, hc]
        exact Bool.false_ne_true
      refine ⟨[], n, path, [], t, rfl, rfl, rfl, habsent, ?_⟩
      rw [insert, changeNamed_of_absent hc, insert_leaf]
      rfl
    | some c =>
      rw [hc] at h
      obtain ⟨before, name, rest, place, node, rfl, hnode, hplace, hname, hinsert⟩ := ih h
      obtain ⟨i, hi, hset⟩ := exists_changeNamed_eq_set hc
      refine ⟨n :: before, name, rest, i :: place, node, rfl, ?_, ?_, hname, ?_⟩
      · rw [nodeAt?, hc]
        exact hnode
      · rw [at?, hi]
        exact hplace
      · rw [insert, hset, hinsert, appendAt_cons hi]

/-- Whatever is inserted, every node keeps its name, its place and the children in front. -/
theorem exists_at?_insert {place : List ℕ} {node : RelationTree} (path : List String)
    (h : at? place t = some node) :
    ∃ node', at? place (insert path t) = some node' ∧ node'.name = node.name ∧
      node.names <+: node'.names := by
  cases hc : contains path t with
  | true =>
    rw [insert_of_contains hc]
    exact ⟨node, h, rfl, List.prefix_rfl⟩
  | false =>
    obtain ⟨_, name, rest, place', _, -, -, -, -, hinsert⟩ := exists_insert_eq_appendAt hc
    obtain ⟨node', hnode', hname, hnames⟩ := exists_at?_appendAt (chain name rest) place' h
    refine ⟨node', hinsert ▸ hnode', hname, ?_⟩
    rw [hnames]
    split
    · exact List.prefix_append _ _
    · exact List.prefix_rfl

end

/-! ## Content and number -/

section

variable {path q : List String} {t : RelationTree}

theorem contains_insert :
    contains q (insert path t) = true ↔ contains q t = true ∨ q <+: path := by
  cases q using List.reverseRecOn with
  | nil => simp [contains_nil]
  | append_singleton p x =>
    rw [← mem_namesAt_iff, ← mem_namesAt_iff, namesAt_insert, ← next?_eq_some_iff]
    cases next? p path with
    | none => simp
    | some y => rw [Option.elim_some, mem_addName, Option.some.injEq, eq_comm (a := x)]

theorem relationCount_eq (t : RelationTree) : t.relationCount = countAll t.children := by
  obtain ⟨name, ts⟩ := t
  rw [relationCount]

theorem countAll_concat (ts : List RelationTree) (c : RelationTree) :
    countAll (ts ++ [c]) = countAll ts + (1 + c.relationCount) := by
  induction ts with
  | nil => simp [countAll]
  | cons t ts ih =>
    rw [List.cons_append, countAll, ih, countAll]
    omega

theorem countAll_set {ts : List RelationTree} {i : ℕ} {c : RelationTree} (hc : ts[i]? = some c)
    (d : RelationTree) :
    countAll (ts.set i d) + c.relationCount = countAll ts + d.relationCount := by
  induction ts generalizing i with
  | nil => cases hc
  | cons t ts ih =>
    cases i with
    | zero =>
      obtain rfl : t = c := Option.some.inj hc
      rw [List.set_cons_zero, countAll, countAll]
      omega
    | succ i =>
      have := ih (i := i) hc
      rw [List.set_cons_succ, countAll, countAll]
      omega

theorem relationCount_chain (name : String) (path : List String) :
    (chain name path).relationCount = path.length := by
  induction path generalizing name with
  | nil => rfl
  | cons n path ih =>
    rw [chain, relationCount, countAll, countAll, ih, List.length_cons]
    omega

/-- **Number.** There is one relation more for each prefix of the path that was not in the tree. By
induction on the path: below a child that is there its own missing prefixes count, and where there
is none all longer prefixes are missing. -/
theorem relationCount_insert (path : List String) (t : RelationTree) :
    (insert path t).relationCount =
      t.relationCount + path.inits.countP fun q => !contains q t := by
  induction path generalizing t with
  | nil => rfl
  | cons name path ih =>
    rw [List.inits_cons, List.countP_cons_of_neg (by simp [contains_nil]), List.countP_map, insert,
      relationCount_eq, relationCount_eq]
    cases hc : t.child? name with
    | none =>
      have hall : ∀ q ∈ path.inits, ((fun q => !contains q t) ∘ (name :: ·)) q = true := by
        intro q _
        simp only [Function.comp_apply, contains, hc, Bool.not_false]
      rw [changeNamed_of_absent hc, countAll_concat, insert_leaf, relationCount_chain,
        List.countP_eq_length.2 hall, List.length_inits, Nat.add_comm 1]
    | some c =>
      have hbelow : ((fun q => !contains q t) ∘ (name :: ·)) = fun q => !contains q c := by
        funext q
        simp only [Function.comp_apply, contains, hc]
      obtain ⟨i, hi, hset⟩ := exists_changeNamed_eq_set hc
      have hcount := countAll_set hi (insert path c)
      rw [ih c] at hcount
      rw [hset, hbelow]
      change countAll (t.children.set i (insert path c)) = _
      omega

end

/-! ## One insertion -/

/-- **Growth.** After the insertion of a path a tree contains the prefixes of the path and what it
contained before, with one relation for each non-empty prefix that is new. Every node keeps its name
and its place, with the children it had in front. If the path is new, its missing part stands in a
chain behind the children of the node that the rest of it leads to, and nothing else has changed; if
it was there, nothing has changed at all. No sibling's name is doubled. -/
theorem insert_adds_missing (path : List String) (t : RelationTree) :
    (∀ q, contains q (insert path t) = true ↔ contains q t = true ∨ q <+: path) ∧
    (insert path t).relationCount =
      t.relationCount + path.inits.countP (fun q => q ≠ [] && !contains q t) ∧
    (∀ place node, at? place t = some node →
      ∃ node', at? place (insert path t) = some node' ∧ node'.name = node.name ∧
        node.names <+: node'.names) ∧
    (contains path t = false → ∃ before name rest place node, path = before ++ name :: rest ∧
      nodeAt? before t = some node ∧ at? place t = some node ∧ name ∉ node.names ∧
      insert path t = appendAt (chain name rest) place t) ∧
    (contains path t = true → insert path t = t) ∧
    (UniqueSiblings t → UniqueSiblings (insert path t)) := by
  refine ⟨fun q => contains_insert, ?_, fun place node => exists_at?_insert path,
    exists_insert_eq_appendAt, insert_of_contains, .insert path⟩
  rw [relationCount_insert]
  refine congrArg (t.relationCount + ·) (List.countP_congr fun q _ => ?_)
  -- the empty path is in every tree, so it makes no difference whether it is counted
  by_cases hq : q = []
  · simp [hq, contains_nil]
  · simp [hq]

/-- Two siblings share a name, and another relation has none. The path leads over the first of the
two and ends in a chain behind its children, though the second one has a child of the name that is
missing; that one stays at its place. -/
theorem insert_adds_missing_of_doubled :
    let t : RelationTree := ⟨"", [⟨"a", [leaf "b"]⟩, ⟨"a", [leaf "c.d"]⟩, leaf ""]⟩
    let u := ofPaths [["a", "b"], [""]]
    let path := ["a", "c.d", "e"]
    (contains path t = false ∧ ∃ before name rest place node, path = before ++ name :: rest ∧
      nodeAt? before t = some node ∧ at? place t = some node ∧ name ∉ node.names ∧
      insert path t = appendAt (chain name rest) place t) ∧
    (at? [1] t = some ⟨"a", [leaf "c.d"]⟩ ∧ ∃ node', at? [1] (insert path t) = some node' ∧
      node'.name = "a" ∧ ["c.d"] <+: node'.names) ∧
    (contains ["a", "b"] t = true ∧ insert ["a", "b"] t = t) ∧
    (UniqueSiblings u ∧ UniqueSiblings (insert path u)) := by
  intro t u path
  obtain ⟨-, -, hframe, hnew, -, -⟩ := insert_adds_missing path t
  obtain ⟨-, -, -, -, hsame, -⟩ := insert_adds_missing ["a", "b"] t
  obtain ⟨-, -, -, -, -, hunique⟩ := insert_adds_missing path u
  have habsent : contains path t = false := by decide
  have hplace : at? [1] t = some ⟨"a", [leaf "c.d"]⟩ := rfl
  have hthere : contains ["a", "b"] t = true := by decide
  have hu : UniqueSiblings u := uniqueSiblings_ofPaths _
  exact ⟨⟨habsent, hnew habsent⟩, ⟨hplace, hframe [1] _ hplace⟩, ⟨hthere, hsame hthere⟩,
    hu, hunique hu⟩

end JoinPlan.RelationTree
