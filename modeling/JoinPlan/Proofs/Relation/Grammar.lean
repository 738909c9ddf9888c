import JoinPlan.Relation.Expression
/-!
# The grammar of relation expressions

Four characters of an expression are marks and stand for the shape of a tree. Where no name has a
mark in it and no relation is without a name, the expressions are the words of this grammar:

* expression: nothing, an item, or `'[' item (',' item)+ ']'`;
* item: a name, `name '.' item`, or `name '.' '[' item (',' item)+ ']'`.

Results:
* `write_eq`: a tree is written as its name, a link and what is reached from it.
* `item_write`, `exists_of_item`: the items are what relations with plain names are written as.
* `expression_write`, `exists_of_expression`: the same for expressions and whole trees.
-/
namespace JoinPlan.RelationTree

/-! ## The grammar -/

/-- The characters that stand for the shape of a tree. -/
def isMark (c : Char) : Bool :=
  c = '.' || c = ',' || c = '[' || c = ']'

/-- Whether a name is not empty and has no mark in it. -/
def isPlainName (name : List Char) : Bool :=
  !name.isEmpty && name.all (!isMark ·)

/-- `'[' u (',' u)* ']'` -/
def bracketed (us : List (List Char)) : List Char :=
  '[' :: ([','].intercalate us ++ [']'])

/-- A relation and all that is reached from it. -/
inductive Item : List Char → Prop where
  | name {n : List Char} (hn : isPlainName n = true) : Item n
  | chain {n u : List Char} (hn : isPlainName n = true) (hu : Item u) : Item (n ++ '.' :: u)
  | branch {n : List Char} {us : List (List Char)} (hn : isPlainName n = true)
    (hlen : 2 ≤ us.length) (hus : ∀ u ∈ us, Item u) : Item (n ++ '.' :: bracketed us)

/-- All that is reached from an unnamed root. -/
inductive Expression : List Char → Prop where
  | empty : Expression []
  | item {u : List Char} (hu : Item u) : Expression u
  | branch {us : List (List Char)} (hlen : 2 ≤ us.length) (hus : ∀ u ∈ us, Item u) :
    Expression (bracketed us)

theorem isPlainName_iff {n : List Char} :
    isPlainName n = true ↔ n ≠ [] ∧ ∀ c ∈ n, isMark c = false := by
  simp [isPlainName]

/-! ## Trees with plain names -/

mutual

/-- Whether all names are plain, that of the top included. -/
def hasPlainNames : RelationTree → Bool
  | ⟨name, ts⟩ => isPlainName name.toList && allPlainNames ts

def allPlainNames : List RelationTree → Bool
  | [] => true
  | t :: ts => t.hasPlainNames && allPlainNames ts

end

/-- Whether the root is unnamed and all other names are plain. -/
def isPlain (t : RelationTree) : Bool :=
  t.name = "" && allPlainNames t.children

theorem allPlainNames_iff {ts : List RelationTree} :
    allPlainNames ts = true ↔ ∀ t ∈ ts, t.hasPlainNames = true := by
  induction ts with
  | nil => simp [allPlainNames]
  | cons t ts ih => simp [allPlainNames, ih]

theorem hasPlainNames_iff {t : RelationTree} : t.hasPlainNames = true ↔
    isPlainName t.name.toList = true ∧ ∀ c ∈ t.children, c.hasPlainNames = true := by
  obtain ⟨name, ts⟩ := t
  rw [hasPlainNames, Bool.and_eq_true, allPlainNames_iff]

theorem hasPlainNames_leaf (name : String) :
    (leaf name).hasPlainNames = isPlainName name.toList := by
  simp [leaf, hasPlainNames, allPlainNames]

theorem isPlain_iff {t : RelationTree} :
    t.isPlain = true ↔ t.name = "" ∧ ∀ c ∈ t.children, c.hasPlainNames = true := by
  rw [isPlain, Bool.and_eq_true, decide_eq_true_eq, allPlainNames_iff]

/-- A property that passes from all children to their parent holds of every tree. -/
theorem induction {motive : RelationTree → Prop}
    (node : ∀ name ts, (∀ t ∈ ts, motive t) → motive ⟨name, ts⟩) (t : RelationTree) :
    motive t := by
  refine RelationTree.rec (motive_2 := fun ts => ∀ t ∈ ts, motive t) node ?_ ?_ t
  · simp
  · intro t ts ht hts
    exact List.forall_mem_cons.2 ⟨ht, hts⟩

/-! ## How trees are written -/

/-- What is written behind the link of a relation. -/
def writeBelow : List RelationTree → List Char
  | [] => []
  | [t] => t.write
  | t :: u :: ts => bracketed ((t :: u :: ts).map write)

theorem append_writeFurther (t : RelationTree) (ts : List RelationTree) :
    t.write ++ writeFurther ts = [','].intercalate ((t :: ts).map write) := by
  induction ts generalizing t with
  | nil => simp [writeFurther]
  | cons u ts ih => rw [writeFurther, List.cons_append, ih u]; rfl

theorem write_leaf (name : String) : write ⟨name, []⟩ = name.toList := by
  rw [write]

theorem write_eq (name : String) {ts : List RelationTree} (h : ts ≠ []) :
    write ⟨name, ts⟩ = name.toList ++ (link name ++ writeBelow ts) := by
  match ts with
  | [] => exact absurd rfl h
  | [t] => simp [write, writeBelow]
  | t :: u :: ts =>
    rw [write, writeBelow, bracketed, ← append_writeFurther, writeFurther]
    simp

/-- Below an unnamed root there is nothing else to write. -/
theorem write_of_name_eq {t : RelationTree} (h : t.name = "") : t.write = writeBelow t.children := by
  obtain ⟨name, ts⟩ := t
  obtain rfl : name = "" := h
  cases ts with
  | nil => rw [write_leaf]; rfl
  | cons t ts => simp [write_eq, link]

theorem link_of_isPlainName {name : String} (h : isPlainName name.toList = true) :
    link name = ['.'] := by
  rw [link, if_neg]
  rintro rfl
  exact (isPlainName_iff.1 h).1 rfl

theorem exists_write_eq_cons {t : RelationTree} (h : t.hasPlainNames = true) :
    ∃ c u, t.write = c :: u ∧ isMark c = false := by
  obtain ⟨name, ts⟩ := t
  have happend : ∃ u, write ⟨name, ts⟩ = name.toList ++ u := by
    by_cases hne : ts = []
    · exact ⟨[], by rw [hne, write_leaf, List.append_nil]⟩
    · exact ⟨_, write_eq name hne⟩
  obtain ⟨u, hu⟩ := happend
  obtain ⟨hnil, hmarks⟩ := isPlainName_iff.1 (hasPlainNames_iff.1 h).1
  obtain ⟨c, n, hn⟩ := List.exists_cons_of_ne_nil hnil
  exact ⟨c, n ++ u, by rw [hu, hn]; rfl, hmarks c (by rw [hn]; simp)⟩

/-! ## The words are what is written -/

theorem item_write (t : RelationTree) : t.hasPlainNames = true → Item t.write := by
  induction t using induction with
  | node name ts ih =>
    intro h
    obtain ⟨hname, hts⟩ := hasPlainNames_iff.1 h
    match ts with
    | [] => rw [write_leaf]; exact .name hname
    | [t] =>
      rw [write_eq name (by simp), link_of_isPlainName hname]
      exact .chain hname (ih t (by simp) (hts t (by simp)))
    | t :: u :: ts =>
      rw [write_eq name (by simp), link_of_isPlainName hname]
      refine .branch hname (by simp) fun w hw => ?_
      obtain ⟨v, hv, rfl⟩ := List.mem_map.1 hw
      exact ih v hv (hts v hv)

/-- A list of words is written by a list of trees, if each word is by some tree. -/
theorem exists_map_write {us : List (List Char)}
    (h : ∀ u ∈ us, ∃ t : RelationTree, t.hasPlainNames = true ∧ t.write = u) :
    ∃ ts : List RelationTree, (∀ t ∈ ts, t.hasPlainNames = true) ∧ ts.map write = us := by
  induction us with
  | nil => exact ⟨[], by simp, rfl⟩
  | cons u us ih =>
    obtain ⟨⟨t, ht, hu⟩, hus⟩ := List.forall_mem_cons.1 h
    obtain ⟨ts, hts, hmap⟩ := ih hus
    exact ⟨t :: ts, List.forall_mem_cons.2 ⟨ht, hts⟩, by rw [List.map_cons, hu, hmap]⟩

theorem writeBelow_eq_bracketed {ts : List RelationTree} (h : 2 ≤ (ts.map write).length) :
    writeBelow ts = bracketed (ts.map write) := by
  match ts with
  | [] => simp at h
  | [t] => simp at h
  | t :: u :: ts => rfl

theorem hasPlainNames_ofList {n : List Char} (hn : isPlainName n = true) {ts : List RelationTree}
    (hts : ∀ t ∈ ts, t.hasPlainNames = true) : hasPlainNames ⟨String.ofList n, ts⟩ = true := by
  have hname : isPlainName (String.ofList n).toList = true := by rwa [String.toList_ofList]
  exact hasPlainNames_iff.2 ⟨hname, hts⟩

theorem write_ofList {n : List Char} (hn : isPlainName n = true) {ts : List RelationTree}
    (hne : ts ≠ []) : write ⟨String.ofList n, ts⟩ = n ++ '.' :: writeBelow ts := by
  have hname : isPlainName (String.ofList n).toList = true := by rwa [String.toList_ofList]
  rw [write_eq _ hne, link_of_isPlainName hname, String.toList_ofList]
  rfl

theorem exists_of_item {u : List Char} (h : Item u) :
    ∃ t : RelationTree, t.hasPlainNames = true ∧ t.write = u := by
  induction h with
  | @name n hn =>
    exact ⟨⟨String.ofList n, []⟩, hasPlainNames_ofList hn (by simp),
      by rw [write_leaf, String.toList_ofList]⟩
  | chain hn hu ih =>
    obtain ⟨t, ht, rfl⟩ := ih
    have hts : ∀ c ∈ [t], c.hasPlainNames = true := by simpa using ht
    exact ⟨_, hasPlainNames_ofList hn hts, write_ofList hn (by simp)⟩
  | branch hn hlen hus ih =>
    obtain ⟨ts, hts, rfl⟩ := exists_map_write ih
    have hne : ts ≠ [] := by
      rintro rfl
      simp at hlen
    refine ⟨_, hasPlainNames_ofList hn hts, ?_⟩
    rw [write_ofList hn hne, writeBelow_eq_bracketed hlen]

theorem expression_write {t : RelationTree} (h : t.isPlain = true) : Expression t.write := by
  obtain ⟨hroot, hts⟩ := isPlain_iff.1 h
  rw [write_of_name_eq hroot]
  generalize t.children = ts at hts
  match ts with
  | [] => exact .empty
  | [t] => exact .item (item_write t (hts t (by simp)))
  | t :: u :: ts =>
    refine .branch (by simp) fun w hw => ?_
    obtain ⟨v, hv, rfl⟩ := List.mem_map.1 hw
    exact item_write v (hts v hv)

theorem exists_of_expression {w : List Char} (h : Expression w) :
    ∃ t : RelationTree, t.isPlain = true ∧ t.write = w := by
  have below : ∀ ts : List RelationTree, (∀ t ∈ ts, t.hasPlainNames = true) →
      ∃ t : RelationTree, t.isPlain = true ∧ t.write = writeBelow ts :=
    fun ts hts => ⟨⟨"", ts⟩, isPlain_iff.2 ⟨rfl, hts⟩, write_of_name_eq rfl⟩
  cases h with
  | empty => exact below [] (by simp)
  | item hu =>
    obtain ⟨t, ht, rfl⟩ := exists_of_item hu
    exact below [t] (by simpa using ht)
  | branch hlen hus =>
    obtain ⟨ts, hts, rfl⟩ := exists_map_write fun u hu => exists_of_item (hus u hu)
    rw [← writeBelow_eq_bracketed hlen]
    exact below ts hts

end JoinPlan.RelationTree
