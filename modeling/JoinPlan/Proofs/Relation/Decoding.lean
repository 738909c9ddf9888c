import Mathlib.Data.Set.Function
import JoinPlan.Proofs.Relation.Grammar
import JoinPlan.Proofs.Text.Start
/-!
# Decoding relation expressions

Where all names are plain an expression says which tree it stands for. `decode` reads it back: a
name goes on to the next mark, a dot leads to what is reached from the relation, and a bracket opens
a list of relations.

Results:
* `readSiblings_intercalate`, `readBelow_write`, `readsBack_of_hasPlainNames`: what is written is read
  back.
* `write_of_readRelation`, `write_of_readBelow`, `intercalate_of_readSiblings`: nothing else is read.
* `decode_eq_some_iff`: the decoder is the inverse of `expression` on trees with plain names.
* `expression_bijOn`: such trees and the words of the grammar correspond to each other.
-/
namespace JoinPlan.RelationTree
open Text

/-! ## The decoder -/

/-- The name in front of a text, and the rest. -/
def readName (s : List Char) : Option (String × List Char) :=
  match s.takeWhile (!isMark ·), s.dropWhile (!isMark ·) with
  | [], _ => none
  | name, rest => some (String.ofList name, rest)

mutual

/-- The relation in front of a text with all that is reached from it, and the rest. -/
def readRelation (s : List Char) : Option (RelationTree × List Char) :=
  match readName s with
  | some (name, '.' :: r) =>
    if r.length < s.length then (readBelow r).map fun (ts, rest) => (⟨name, ts⟩, rest) else none
  | some (name, rest) => some (leaf name, rest)
  | none => none
termination_by (s.length, 0)

/-- One relation, or at least two in brackets. -/
def readBelow (s : List Char) : Option (List RelationTree × List Char) :=
  match s with
  | '[' :: r =>
    match readSiblings r with
    | some (t :: u :: ts, ']' :: rest) => some (t :: u :: ts, rest)
    | _ => none
  | s => (readRelation s).map fun (t, rest) => ([t], rest)
termination_by (s.length, 1)

/-- Relations with commas between them. -/
def readSiblings (s : List Char) : Option (List RelationTree × List Char) :=
  match readRelation s with
  | some (t, ',' :: r) =>
    if r.length < s.length then (readSiblings r).map fun (ts, rest) => (t :: ts, rest) else none
  | some (t, rest) => some ([t], rest)
  | none => none
termination_by (s.length, 1)

end

/-- The tree that an expression stands for. -/
def decode (w : String) : Option RelationTree :=
  if w.toList.isEmpty then some root else
    match readBelow w.toList with
    | some (ts, []) => some ⟨"", ts⟩
    | _ => none

/-! ## What is written is read back -/

section

variable {name : String} {r : List Char}

theorem readName_append (h : isPlainName name.toList = true)
    (hr : startsWith (!isMark ·) r = false) : readName (name.toList ++ r) = some (name, r) := by
  obtain ⟨hne, hmarks⟩ := isPlainName_iff.1 h
  have hclass : ∀ c ∈ name.toList, (!isMark c) = true := by simpa using hmarks
  rw [readName, takeWhile_append_of_stop hclass hr, dropWhile_append_of_stop hclass hr]
  split
  · rename_i hnil
    exact absurd hnil hne
  · rw [String.ofList_toList]

/-- Whether a relation goes on with a character: with more of its name, or to another relation. -/
def goesOn (c : Char) : Bool := c = '.' || !isMark c

theorem readRelation_name (h : isPlainName name.toList = true)
    (hr : startsWith goesOn r = false) :
    readRelation (name.toList ++ r) = some (leaf name, r) := by
  have hname := readName_append h (startsWith_eq_false_of_imp (by simp +contextual [goesOn]) hr)
  rw [readRelation, hname]
  split
  · rename_i hr'
    cases hr'
    simp [goesOn] at hr
  · rename_i he
    cases he
    rfl
  · rename_i he
    cases he

theorem readRelation_link (h : isPlainName name.toList = true) {s : List Char}
    {ts : List RelationTree} (hs : readBelow s = some (ts, r)) :
    readRelation (name.toList ++ '.' :: s) = some (⟨name, ts⟩, r) := by
  have hname := readName_append (r := '.' :: s) h (by simp [isMark])
  have hlen : s.length < (name.toList ++ '.' :: s).length := by
    rw [List.length_append, List.length_cons]
    omega
  simp only [readRelation, hname, if_pos hlen, hs, Option.map_some]

end

/-- Whether a relation is read back from its text, whatever stands behind it. -/
def ReadsBack (t : RelationTree) : Prop :=
  ∀ r, startsWith goesOn r = false → readRelation (t.write ++ r) = some (t, r)

section

variable {ts : List RelationTree}

/-- By induction on the list: a comma or the bracket stands behind each relation. -/
theorem readSiblings_intercalate (hne : ts ≠ []) (h : ∀ t ∈ ts, ReadsBack t) (r : List Char) :
    readSiblings ([','].intercalate (ts.map write) ++ ']' :: r) = some (ts, ']' :: r) := by
  induction ts with
  | nil => exact absurd rfl hne
  | cons t ts ih =>
    obtain ⟨ht, hts⟩ := List.forall_mem_cons.1 h
    cases ts with
    | nil =>
      have hread := ht (']' :: r) (by simp [goesOn, isMark])
      rw [List.map_singleton, List.intercalate_singleton, readSiblings, hread]
      rfl
    | cons u us =>
      have hread := ht (',' :: ([','].intercalate ((u :: us).map write) ++ ']' :: r))
        (by simp [goesOn, isMark])
      have hlen : ([','].intercalate ((u :: us).map write) ++ ']' :: r).length <
          (t.write ++ ',' :: ([','].intercalate ((u :: us).map write) ++ ']' :: r)).length := by
        simp only [List.length_append, List.length_cons]
        omega
      have hjoin : [','].intercalate ((t :: u :: us).map write) =
          t.write ++ ',' :: [','].intercalate ((u :: us).map write) := rfl
      rw [hjoin, List.append_assoc, List.cons_append, readSiblings, hread]
      simp only [if_pos hlen, ih (by simp) hts, Option.map_some]

theorem readBelow_write (hne : ts ≠ []) (hplain : ∀ t ∈ ts, t.hasPlainNames = true)
    (h : ∀ t ∈ ts, ReadsBack t) {r : List Char} (hr : startsWith goesOn r = false) :
    readBelow (writeBelow ts ++ r) = some (ts, r) := by
  match ts with
  | [] => exact absurd rfl hne
  | [t] =>
    have hread := h t (by simp) r hr
    obtain ⟨c, u, hu, hc⟩ := exists_write_eq_cons (hplain t (by simp))
    rw [writeBelow]
    rw [hu, List.cons_append] at hread ⊢
    -- a name does not start with a bracket
    have hne : c ≠ '[' := by
      rintro rfl
      cases hc
    rw [readBelow, hread]
    · rfl
    · simpa using hne
  | t :: u :: us =>
    have hread := readSiblings_intercalate hne h r
    rw [writeBelow, bracketed, List.cons_append, List.append_assoc]
    rw [readBelow, List.singleton_append, hread]
    rfl

end

/-- **Relations.** By induction on the tree: a name is read to its end, and behind the dot stand the
children, each of which is read back. -/
theorem readsBack_of_hasPlainNames (t : RelationTree) : t.hasPlainNames = true → ReadsBack t := by
  induction t using induction with
  | node name ts ih =>
    intro h r hr
    obtain ⟨hname, hts⟩ := hasPlainNames_iff.1 h
    by_cases hne : ts = []
    · subst hne
      rw [write_leaf]
      exact readRelation_name hname hr
    · rw [write_eq name hne, link_of_isPlainName hname, List.append_assoc, List.append_assoc]
      exact readRelation_link hname (readBelow_write hne hts (fun t ht => ih t ht (hts t ht)) hr)

/-! ## Nothing else is read -/

theorem of_readName {s r : List Char} {name : String} (h : readName s = some (name, r)) :
    isPlainName name.toList = true ∧ s = name.toList ++ r := by
  unfold readName at h
  split at h
  · cases h
  · rename_i hne
    cases h
    rw [String.toList_ofList, isPlainName_iff]
    refine ⟨⟨fun hnil => hne hnil, fun c hc => ?_⟩, List.takeWhile_append_dropWhile.symm⟩
    simpa using List.mem_takeWhile_imp hc

mutual

theorem write_of_readRelation {s r : List Char} {t : RelationTree}
    (h : readRelation s = some (t, r)) : t.hasPlainNames = true ∧ s = t.write ++ r := by
  rw [readRelation] at h
  split at h
  · rename_i name rest hname
    obtain ⟨hplain, hs⟩ := of_readName hname
    split at h
    · rename_i hlen
      obtain ⟨⟨ts, r'⟩, hts, h⟩ := Option.map_eq_some_iff.1 h
      cases h
      obtain ⟨hne, hall, hrest⟩ := write_of_readBelow hts
      refine ⟨hasPlainNames_iff.2 ⟨hplain, hall⟩, ?_⟩
      rw [write_eq name hne, link_of_isPlainName hplain, hs, hrest]
      simp
    · cases h
  · rename_i hname
    cases h
    obtain ⟨hplain, hs⟩ := of_readName hname
    exact ⟨by rw [hasPlainNames_leaf, hplain], by rw [leaf, write_leaf, hs]⟩
  · cases h
termination_by (s.length, 0)

theorem write_of_readBelow {s r : List Char} {ts : List RelationTree}
    (h : readBelow s = some (ts, r)) :
    ts ≠ [] ∧ (∀ t ∈ ts, t.hasPlainNames = true) ∧ s = writeBelow ts ++ r := by
  unfold readBelow at h
  split at h
  · rename_i s'
    split at h
    · rename_i t u us rest hread
      cases h
      obtain ⟨hne, hall, hs⟩ := intercalate_of_readSiblings hread
      refine ⟨hne, hall, ?_⟩
      rw [writeBelow, bracketed, hs]
      simp
    · cases h
  · obtain ⟨⟨t, rest⟩, hread, h⟩ := Option.map_eq_some_iff.1 h
    cases h
    obtain ⟨hplain, hs⟩ := write_of_readRelation hread
    exact ⟨by simp, by simpa using hplain, hs⟩
termination_by (s.length, 1)

theorem intercalate_of_readSiblings {s r : List Char} {ts : List RelationTree}
    (h : readSiblings s = some (ts, r)) :
    ts ≠ [] ∧ (∀ t ∈ ts, t.hasPlainNames = true) ∧ s = [','].intercalate (ts.map write) ++ r := by
  rw [readSiblings] at h
  split at h
  · rename_i t rest hread
    obtain ⟨hplain, hs⟩ := write_of_readRelation hread
    split at h
    · rename_i hlen
      obtain ⟨⟨us, r'⟩, hus, h⟩ := Option.map_eq_some_iff.1 h
      cases h
      obtain ⟨hne, hall, hrest⟩ := intercalate_of_readSiblings hus
      refine ⟨by simp, List.forall_mem_cons.2 ⟨hplain, hall⟩, ?_⟩
      obtain ⟨u, us, rfl⟩ := List.exists_cons_of_ne_nil hne
      rw [hs, hrest]
      simp [List.intercalate_cons_cons]
    · cases h
  · rename_i hread
    cases h
    obtain ⟨hplain, hs⟩ := write_of_readRelation hread
    exact ⟨by simp, by simpa using hplain, by simp [hs]⟩
  · cases h
termination_by (s.length, 1)

end

/-! ## Whole expressions -/

theorem expression_eq_iff {t : RelationTree} {w : String} :
    t.expression = w ↔ t.write = w.toList := by
  rw [expression, ← String.toList_inj, String.toList_ofList]

theorem decode_eq_some_iff {w : String} {t : RelationTree} :
    decode w = some t ↔ t.isPlain = true ∧ t.expression = w := by
  rw [expression_eq_iff]
  constructor
  · intro h
    unfold decode at h
    split at h
    · rename_i hempty
      cases h
      exact ⟨rfl, by rw [List.isEmpty_iff.1 hempty]; rfl⟩
    · split at h
      · rename_i ts hread
        cases h
        obtain ⟨-, hall, hs⟩ := write_of_readBelow hread
        exact ⟨isPlain_iff.2 ⟨rfl, hall⟩, by rw [write_of_name_eq rfl, hs, List.append_nil]⟩
      · cases h
  · intro h
    obtain ⟨hplain, hw⟩ := h
    obtain ⟨name, ts⟩ := t
    obtain ⟨rfl, hall⟩ := isPlain_iff.1 hplain
    rw [write_of_name_eq rfl] at hw
    rw [decode, ← hw]
    by_cases hts : ts = []
    · subst hts
      rfl
    · have hread := readBelow_write hts hall
        (fun t ht => readsBack_of_hasPlainNames t (hall t ht)) (startsWith_nil goesOn)
      rw [List.append_nil] at hread
      have hne : writeBelow ts ≠ [] := by
        intro hnil
        rw [hnil] at hread
        simp [readBelow, readRelation, readName] at hread
      rw [if_neg (mt List.isEmpty_iff.1 hne), hread]

/-- Trees with plain names are told apart by their expressions. -/
theorem eq_of_expression_eq {t u : RelationTree} (ht : t.isPlain = true) (hu : u.isPlain = true)
    (h : t.expression = u.expression) : t = u := by
  have hdecode := decode_eq_some_iff.2 ⟨ht, h⟩
  rw [decode_eq_some_iff.2 ⟨hu, rfl⟩] at hdecode
  exact (Option.some.inj hdecode).symm

theorem expression_iff_exists {w : String} :
    Expression w.toList ↔ ∃ t : RelationTree, t.isPlain = true ∧ t.expression = w := by
  simp only [expression_eq_iff]
  constructor
  · exact exists_of_expression
  · rintro ⟨t, ht, hw⟩
    rw [← hw]
    exact expression_write ht

/-- **Lossless.** The expressions of trees with plain names are the words of the grammar, each of
exactly one such tree, and the decoder finds it. It refuses every other text. -/
theorem expression_bijOn :
    Set.BijOn expression {t | t.isPlain = true} {w | Expression w.toList} ∧
    (∀ w t, decode w = some t ↔ t.isPlain = true ∧ t.expression = w) ∧
    ∀ w, (decode w).isSome = true ↔ Expression w.toList := by
  refine ⟨⟨fun t ht => ?_, fun t ht u hu h => ?_, fun w hw => ?_⟩, fun w t => decode_eq_some_iff,
    fun w => ?_⟩
  · exact expression_iff_exists.2 ⟨t, ht, rfl⟩
  · exact eq_of_expression_eq ht hu h
  · exact expression_iff_exists.1 hw
  · rw [Option.isSome_iff_exists, expression_iff_exists]
    exact exists_congr fun t => decode_eq_some_iff

end JoinPlan.RelationTree
