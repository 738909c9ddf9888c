import JoinPlan.Proofs.Number.Numeral
import JoinPlan.Proofs.Predicate.Malformed
/-!
# The first malformed node

Nodes are read in the order in which they are met from the root, a node in front of its constraints,
and the error is that of the first one that is malformed. Its way from the root is written out in the
error, so that it can be followed by hand.

Results:
* `NodeError.toList_path`, `NodeError.path_injective`: how a way is written, and that it can be read.
* `Predicate.ofJsonAt?_eq`: a reader that takes the way along tells the same.
* `Predicate.ofJson?_eq_error_iff_first`: the error tells the first malformed node.
-/
namespace JoinPlan

/-! ## Ways -/

namespace NodeError
open Numeral Text

/-- One step of a way, to constraint `i` of a node. -/
def step (i : Nat) : List Char := ".constraints[".toList ++ Nat.toDigits 10 i ++ [']']

theorem step_ne_nil (i : Nat) : step i ≠ [] :=
  List.append_ne_nil_of_right_ne_nil _ (List.cons_ne_nil _ _)

theorem step_append (i : Nat) (s : List Char) :
    step i ++ s = ".constraints[".toList ++ (Nat.toDigits 10 i ++ ([']'] ++ s)) :=
  -- a rewrite would look for appends inside the quoted text
  (List.append_assoc _ _ _).trans (List.append_assoc _ _ _)

theorem toList_constraintWay (way : String) (i : Nat) :
    (constraintWay way i).toList = way.toList ++ step i := by
  rw [constraintWay, String.toList_append, String.toList_append, String.toList_append,
    Nat.toString_eq_repr, Nat.toList_repr, List.append_assoc, List.append_assoc,
    ← List.append_assoc _ _ "]".toList]
  rfl

theorem toList_foldl_constraintWay (way : String) (l : List Nat) :
    (l.foldl constraintWay way).toList = way.toList ++ l.flatMap step := by
  induction l generalizing way with
  | nil => rw [List.foldl_nil, List.flatMap_nil, List.append_nil]
  | cons i l ih =>
    rw [List.foldl_cons, ih, toList_constraintWay, List.flatMap_cons, List.append_assoc]

theorem toList_path (l : List Nat) : (path l).toList = '$' :: l.flatMap step :=
  toList_foldl_constraintWay "$" l

theorem step_append_inj {i j : Nat} {s t : List Char} (h : step i ++ s = step j ++ t) :
    i = j ∧ s = t := by
  have hstop (u : List Char) : startsWith Char.isDigit ([']'] ++ u) = false := rfl
  rw [step_append, step_append] at h
  have htake := congrArg takeDigits (List.append_cancel_left h)
  rw [takeDigits_append (isDigits_toDigits i).2 (hstop s),
    takeDigits_append (isDigits_toDigits j).2 (hstop t)] at htake
  obtain ⟨hij, hst⟩ := Prod.mk.inj htake
  refine ⟨?_, List.append_cancel_left hst⟩
  rw [← digitsValue_toDigits i, hij, digitsValue_toDigits]

theorem flatMap_step_inj {l m : List Nat} (h : l.flatMap step = m.flatMap step) : l = m := by
  induction l generalizing m with
  | nil =>
    cases m with
    | nil => rfl
    | cons j m => exact absurd (List.append_eq_nil_iff.1 h.symm).1 (step_ne_nil j)
  | cons i l ih =>
    cases m with
    | nil => exact absurd (List.append_eq_nil_iff.1 h).1 (step_ne_nil i)
    | cons j m =>
      obtain ⟨rfl, hrest⟩ := step_append_inj h
      rw [ih hrest]

/-- Two ways are not written alike. -/
theorem path_injective : Function.Injective path := by
  intro l m h
  have hchars : '$' :: l.flatMap step = '$' :: m.flatMap step := by
    rw [← toList_path, ← toList_path, h]
  exact flatMap_step_inj (List.cons.inj hchars).2

/-- What is told of a malformed node if `way` leads to the node that is read. -/
def told (way : String) (e : NodeError) : String × Reason :=
  (e.location.foldl constraintWay way, e.reason)

end NodeError

namespace Predicate

/-! ## Taking the way along -/

section
open NodeError

mutual

/-- Taking the way along is putting the place together on the way back. -/
theorem ofJsonAt?_eq (way : String) : ∀ v, ofJsonAt? way v = (ofJson? v).mapError (told way)
  | .object members => by
    rw [ofJson?]
    split <;> rename_i htype
    · cases hread : logicalOfMembers members with
      | error reason => simp only [ofJsonAt?, htype, hread]; rfl
      | ok found =>
        obtain ⟨op, items, h⟩ := found
        have := sizeOf_lt_of_mem_constraints h
        simp only [ofJsonAt?, htype, hread, allOfJsonAt?_eq way 0 items]
        cases allOfJson? 0 items <;> rfl
    · simp only [ofJsonAt?, htype]
      cases comparisonOfMembers members <;> rfl
    · simp only [ofJsonAt?, htype]; rfl
    · simp only [ofJsonAt?, htype]; rfl
    · simp only [ofJsonAt?, htype]; rfl
  | .null | .boolean _ | .text _ | .number _ | .array _ => by
    rw [ofJsonAt?, ofJson?]
    · rfl
    all_goals simp
termination_by v => sizeOf v

theorem allOfJsonAt?_eq (way : String) (i : Nat) :
    ∀ vs, allOfJsonAt? way i vs = (allOfJson? i vs).mapError (told way)
  | [] => by rw [allOfJsonAt?, allOfJson?]; rfl
  | v :: vs => by
    rw [allOfJsonAt?, allOfJson?, ofJsonAt?_eq (constraintWay way i) v]
    cases ofJson? v with
    | error e => rfl
    | ok p =>
      change (allOfJsonAt? way (i + 1) vs).map (p :: ·) = _
      rw [allOfJsonAt?_eq way (i + 1) vs]
      cases allOfJson? (i + 1) vs <;> rfl
termination_by vs => sizeOf vs

end

/-- From the root the way is the path that the error gives. -/
theorem ofJsonAt?_root (v : Json) :
    ofJsonAt? "$" v = (ofJson? v).mapError fun e => (path e.location, e.reason) :=
  ofJsonAt?_eq "$" v

end

/-! ## Nodes on a way -/

variable {v w : Json} {items : List Json} {reason : NodeError.Reason} {l m : List Nat}

/-- The node at the end of a way from another one. Ways lead through logical nodes. -/
inductive NodeAt : Json → List Nat → Json → Prop where
  | here (v : Json) : NodeAt v [] v
  | constraint {v u w : Json} {items : List Json} {i : Nat} {l : List Nat} (hv : Holds v items)
    (hu : items[i]? = some u) (h : NodeAt u l w) : NodeAt v (i :: l) w

theorem Holds.unique {items' : List Json} (h : Holds v items) (h' : Holds v items') :
    items = items' := by
  obtain ⟨-, -, hc⟩ := h
  obtain ⟨-, -, hc'⟩ := h'
  cases hc.symm.trans hc'
  rfl

/-- What stands at the end of a way that starts with constraint `i`. -/
theorem nodeAt_cons_iff (hv : Holds v items) {i : Nat} :
    NodeAt v (i :: l) w ↔ ∃ u, items[i]? = some u ∧ NodeAt u l w := by
  constructor
  · rintro (_ | ⟨hv', hu, h⟩)
    cases hv.unique hv'
    exact ⟨_, hu, h⟩
  · rintro ⟨u, hu, h⟩
    exact .constraint hv hu h

/-! ## Reading -/

/-- Every node of what is read is sound. -/
theorem sound_of_ok (h : NodeAt v l w) : ∀ {p}, ofJson? v = .ok p → Sound w := by
  induction h with
  | here v =>
    intro p hp
    refine (sound_or_malformed v).resolve_right fun ⟨reason, hm⟩ => ?_
    cases hp.symm.trans (ofJson?_of_malformed hm)
  | @constraint v u w items i l hv hu _ ih =>
    intro p hp
    obtain ⟨op, hread⟩ := ofJson?_of_holds hv
    cases hitems : allOfJson? 0 items with
    | error e => rw [hread, hitems] at hp; cases hp
    | ok ps =>
      have hall := allOfJson?_eq_ok_iff.1 hitems
      obtain ⟨hi, rfl⟩ := List.getElem?_eq_some_iff.1 hu
      exact ih (hall.get hi (hall.length_eq ▸ hi))

theorem first_of_error : ofJson? v = .error ⟨l, reason⟩ →
    (∃ w, NodeAt v l w ∧ Malformed w reason) ∧ ∀ m u, m < l → NodeAt v m u → Sound u := by
  induction l generalizing v with
  | nil =>
    intro h
    exact ⟨⟨v, .here v, ofJson?_eq_error_nil_iff.1 h⟩, fun m u hm => absurd hm (List.not_lt_nil m)⟩
  | cons i l ih =>
    intro h
    obtain ⟨items, s, hv, hs, herror, hbefore⟩ := ofJson?_eq_error_cons_iff.1 h
    obtain ⟨⟨w, hw, hm⟩, hfirst⟩ := ih herror
    refine ⟨⟨w, .constraint hv hs hw, hm⟩, fun m u hlt hu => ?_⟩
    cases m with
    | nil => cases hu; exact .logical hv
    | cons j m =>
      obtain ⟨t, ht, hu⟩ := (nodeAt_cons_iff hv).1 hu
      rcases List.cons_lt_cons_iff.1 hlt with hj | ⟨rfl, hml⟩
      · obtain ⟨p, hp⟩ := hbefore j hj t ht
        exact sound_of_ok hu hp
      · cases hs.symm.trans ht
        exact hfirst m u hml hu

theorem error_of_first (hw : NodeAt v l w) (hm : Malformed w reason) :
    (∀ m u, m < l → NodeAt v m u → Sound u) → ofJson? v = .error ⟨l, reason⟩ := by
  induction hw with
  | here v => exact fun _ => ofJson?_of_malformed hm
  | @constraint v u w items i l hv hu _ ih =>
    intro hfirst
    have herror : ofJson? u = .error ⟨l, reason⟩ := ih hm fun m t hlt ht =>
      hfirst (i :: m) t (List.cons_lt_cons_iff.2 (.inr ⟨rfl, hlt⟩)) (.constraint hv hu ht)
    refine ofJson?_eq_error_cons_iff.2 ⟨items, u, hv, hu, herror, fun j hj s hs => ?_⟩
    -- the error of an earlier constraint would be that of an earlier node
    cases hread : ofJson? s with
    | ok p => exact ⟨p, rfl⟩
    | error e =>
      obtain ⟨⟨t, ht, hm'⟩, -⟩ := first_of_error hread
      have hsound := hfirst (j :: e.location) t (List.cons_lt_cons_iff.2 (.inl hj))
        (.constraint hv hs ht)
      exact absurd hm' hsound.not_malformed

/-- The constraints in front of a node on the way to a refused one are read. -/
theorem earlier_of_error {i j : Nat} (hj : j < i) :
    ofJson? v = .error ⟨l ++ i :: m, reason⟩ →
      ∃ u p, NodeAt v (l ++ [j]) u ∧ ofJson? u = .ok p := by
  induction l generalizing v with
  | nil =>
    intro h
    obtain ⟨items, s, hv, hs, -, hbefore⟩ := ofJson?_eq_error_cons_iff.1 h
    obtain ⟨hi, -⟩ := List.getElem?_eq_some_iff.1 hs
    have hu : items[j]? = some items[j] := List.getElem?_eq_getElem (hj.trans hi)
    obtain ⟨p, hp⟩ := hbefore j hj _ hu
    exact ⟨_, p, .constraint hv hu (.here _), hp⟩
  | cons k l ih =>
    intro h
    obtain ⟨items, s, hv, hs, herror, -⟩ := ofJson?_eq_error_cons_iff.1 h
    obtain ⟨u, p, hu, hp⟩ := ih herror
    exact ⟨u, p, .constraint hv hs hu, hp⟩

/-- **The first malformed node.** A node is refused exactly for the first malformed node on its ways,
where ways are in the order of their first difference and a way comes in front of those that go on
from it. The constraints in front of that node, and in front of each node on the way to it, are read.
The error tells the way, as `$` and one step for each constraint, and no other way is told so. -/
theorem ofJson?_eq_error_iff_first (v : Json) (e : NodeError) :
    (ofJson? v = .error e ↔ (∃ w, NodeAt v e.location w ∧ Malformed w e.reason) ∧
      ∀ l u, l < e.location → NodeAt v l u → Sound u) ∧
    (ofJson? v = .error e → ∀ l i m, e.location = l ++ i :: m →
      ∀ j < i, ∃ u p, NodeAt v (l ++ [j]) u ∧ ofJson? u = .ok p) ∧
    (NodeError.path e.location).toList = '$' :: e.location.flatMap NodeError.step ∧
    ∀ l, NodeError.path l = NodeError.path e.location → l = e.location := by
  obtain ⟨location, reason⟩ := e
  refine ⟨⟨first_of_error, fun ⟨⟨w, hw, hm⟩, hfirst⟩ => error_of_first hw hm hfirst⟩, ?_,
    NodeError.toList_path _, fun l h => NodeError.path_injective h⟩
  rintro h l i m rfl j hj
  exact earlier_of_error hj h

/-- Of two malformed nodes the one further down is met first. The constraint in front of the node that
holds it is read. -/
theorem ofJson?_eq_error_iff_first_of_two :
    let node (op : String) : Json := .object [("type", .text "comparison"), ("operator", .text op),
      ("args", .object [("identifier", .text "a"), ("value", .boolean true)])]
    let group (op : String) (items : List Json) : Json := .object [("type", .text "logical"),
      ("operator", .text op), ("constraints", .array items)]
    let v := group "match_all" [node "lt", group "match_any" [node "eq", node "=="], .null]
    let e : NodeError := ⟨[1, 1], .unknownComparisonOperator "=="⟩
    ofJson? v = .error e ∧ (∀ l u, l < [1, 1] → NodeAt v l u → Sound u) ∧
      (∃ u p, NodeAt v [0] u ∧ ofJson? u = .ok p) ∧
      (NodeError.path [1, 1]).toList = '$' :: [1, 1].flatMap NodeError.step := by
  intro node group v e
  have hlt : ofJson? (node "lt") = .ok (.comparison .lt "a" (.boolean true)) :=
    (ofJson?_eq_ok_iff _ _).2 (.comparison rfl rfl rfl rfl (by decide) rfl rfl)
  have heq : ofJson? (node "eq") = .ok (.comparison .eq "a" (.boolean true)) :=
    (ofJson?_eq_ok_iff _ _).2 (.comparison rfl rfl rfl rfl (by decide) rfl rfl)
  have hbad : Malformed (node "==") (.unknownComparisonOperator "==") :=
    .unknownComparisonOperator rfl rfl fun op => by cases op <;> decide
  have hinner : ofJson? (group "match_any" [node "eq", node "=="]) = .error ⟨[1], e.reason⟩ :=
    ofJson?_eq_error_cons_iff.2 ⟨_, node "==", @Holds.mk _ _ .matchAny rfl rfl rfl, rfl,
      ofJson?_of_malformed hbad, fun j hj s hs => by
        obtain rfl : j = 0 := by omega
        cases hs
        exact ⟨_, heq⟩⟩
  have herror : ofJson? v = .error e :=
    ofJson?_eq_error_cons_iff.2 ⟨_, _, @Holds.mk _ _ .matchAll rfl rfl rfl, rfl, hinner,
      fun j hj s hs => by
        obtain rfl : j = 0 := by omega
        cases hs
        exact ⟨_, hlt⟩⟩
  obtain ⟨hfirst, hearlier, hpath, -⟩ := ofJson?_eq_error_iff_first v e
  exact ⟨herror, (hfirst.1 herror).2, hearlier herror [] 1 [1] rfl 0 Nat.one_pos, hpath⟩

end Predicate
end JoinPlan
