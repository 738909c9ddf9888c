import Mathlib.Data.List.Forall2
import JoinPlan.Predicate.Document
import JoinPlan.Proofs.Predicate.Writable
/-!
# The JSON values that stand for predicates

Which node describes which predicate is said here without the reader of nodes: by the members of the
node, the last one of each name, and by its constraints one by one. A value is read as a predicate
exactly if it describes it, and the predicates that are described are those that can be written.

Results:
* `Predicate.ofJson?_eq_ok_iff`: what is read is what is described.
* `Predicate.ofJson?_toJson`: the JSON form of a predicate that can be written is read as it.
* `Predicate.isWritable_of_ofJson?`: no other predicates are read.
-/
namespace JoinPlan

/-! ## Values -/

namespace Literal

theorem ofNumber?_integer (i : Int64) : ofNumber? (.integer i.toInt) = some (.integer i) := by
  have hrange : Int64.minValue.toInt ≤ i.toInt ∧ i.toInt ≤ Int64.maxValue.toInt :=
    ⟨Int64.minValue_le_toInt i, Int64.toInt_le i⟩
  rw [ofNumber?, if_pos hrange, Int64.ofInt_toInt]

/-- A number becomes an integer or a finite double. -/
theorem isWritable_of_ofNumber? {n : Json.Number} {v : Literal} (h : ofNumber? n = some v) :
    v.isWritable = true := by
  cases n with
  | integer i =>
    rw [ofNumber?] at h
    split at h
    · cases h
      rfl
    · obtain ⟨x, -, rfl⟩ := Option.map_eq_some_iff.1 h
      rfl
  | float negative x =>
    cases h
    rfl

theorem ofJson?_toJson {v : Literal} (h : v.isWritable = true) : ofJson? v.toJson = .ok v := by
  cases v with
  | integer i => rw [toJson, ofJson?, ofNumber?_integer]
  | float x =>
    cases x with
    | finite negative x => rfl
    | infinite negative => cases h
    | nan => cases h
  | text s => exact if_pos h
  | boolean b => rfl
  | null => rfl

theorem isWritable_of_ofJson? {j : Json} {v : Literal} (h : ofJson? j = .ok v) :
    v.isWritable = true := by
  cases j with
  | null => cases h; rfl
  | boolean b => cases h; rfl
  | number n =>
    rw [ofJson?] at h
    split at h
    · rename_i w hw
      cases h
      exact isWritable_of_ofNumber? hw
    · cases h
  | text s =>
    rw [ofJson?] at h
    split at h
    · rename_i hq
      cases h
      exact hq
    · cases h
  | array items => cases h
  | object members => cases h

end Literal

namespace Predicate
open Json

/-! ## Nodes -/

/-- A JSON value describes a predicate. -/
inductive Describes : Json → Predicate → Prop where
  | logical {members : List (String × Json)} {items : List Json} {op : LogicalOperator}
    {cs : List Predicate} (type : member? "type" members = some (.text "logical"))
    (operator : member? "operator" members = some (.text op.keyword))
    (constraints : member? "constraints" members = some (.array items))
    (each : List.Forall₂ Describes items cs) : Describes (.object members) (.logical op cs)
  | comparison {members args : List (String × Json)} {op : ComparisonOperator} {id : String}
    {j : Json} {v : Literal} (type : member? "type" members = some (.text "comparison"))
    (operator : member? "operator" members = some (.text op.keyword))
    (arguments : member? "args" members = some (.object args))
    (identifier : member? "identifier" args = some (.text id)) (quotable : isQuotable id = true)
    (value : member? "value" args = some j) (literal : Literal.ofJson? j = .ok v) :
    Describes (.object members) (.comparison op id v)

section

variable {members : List (String × Json)}

theorem operatorWord_eq_ok_iff {word : String} :
    operatorWord members = .ok word ↔ member? "operator" members = some (.text word) := by
  rw [operatorWord]
  split <;> simp_all

theorem logicalOfMembers_eq_ok_iff {op : LogicalOperator}
    {items : { items : List Json // ("constraints", .array items) ∈ members }} :
    logicalOfMembers members = .ok (op, items) ↔
      member? "operator" members = some (.text op.keyword) ∧
        member? "constraints" members = some (.array items) := by
  rw [logicalOfMembers, ← operatorWord_eq_ok_iff]
  cases operatorWord members with
  | error e => simp [bind, Except.bind]
  | ok word =>
    simp only [bind, Except.bind, Except.ok.injEq]
    rw [← LogicalOperator.ofKeyword?_eq_some_iff]
    cases LogicalOperator.ofKeyword? word with
    | none => simp
    | some found =>
      simp only [Option.some.injEq]
      split
      · rename_i array harray
        simp [harray, Subtype.ext_iff]
      · rename_i hnone
        simp only [reduceCtorEq, false_iff, not_and]
        exact fun _ harray => hnone items harray

theorem comparisonOfMembers_eq_ok_iff {p : Predicate} :
    comparisonOfMembers members = .ok p ↔ ∃ op args id j v,
      member? "operator" members = some (.text (ComparisonOperator.keyword op)) ∧
        member? "args" members = some (.object args) ∧
        member? "identifier" args = some (.text id) ∧ isQuotable id = true ∧
        member? "value" args = some j ∧ Literal.ofJson? j = .ok v ∧ p = .comparison op id v := by
  constructor
  · intro h
    rw [comparisonOfMembers] at h
    cases hword : operatorWord members with
    | error e => simp [hword, bind, Except.bind] at h
    | ok word =>
      simp only [hword, bind, Except.bind] at h
      rw [operatorWord_eq_ok_iff] at hword
      -- of the two ways at each step, one is an error
      split at h
      case h_1 => cases h
      rename_i op hop
      obtain rfl := ComparisonOperator.ofKeyword?_eq_some_iff.1 hop
      split at h
      case h_2 => cases h
      rename_i args hargs
      split at h
      case h_2 => cases h
      rename_i id hid
      split at h
      case isFalse => cases h
      rename_i hq
      split at h
      case h_2 => cases h
      rename_i j hj
      split at h
      case h_1 => cases h
      rename_i v hv
      cases h
      exact ⟨op, args, id, j, v, hword, hargs, hid, hq, hj, hv, rfl⟩
  · rintro ⟨op, args, id, j, v, hword, hargs, hid, hq, hj, hv, rfl⟩
    rw [← operatorWord_eq_ok_iff] at hword
    rw [comparisonOfMembers, hword]
    simp only [bind, Except.bind, ComparisonOperator.ofKeyword?_keyword, hargs, hid, hq, hj, hv]
    rfl

end

/-- The constraints are read one by one; where the first one stands matters to errors only. -/
theorem allOfJson?_eq_ok_iff {i : Nat} {vs : List Json} {ps : List Predicate} :
    allOfJson? i vs = .ok ps ↔ List.Forall₂ (fun v p => ofJson? v = .ok p) vs ps := by
  induction vs generalizing i ps with
  | nil =>
    rw [allOfJson?, List.forall₂_nil_left_iff, Except.ok.injEq, eq_comm]
  | cons v vs ih =>
    rw [allOfJson?, List.forall₂_cons_left_iff]
    cases hv : ofJson? v with
    | error e => simp
    | ok p =>
      simp only [Except.ok.injEq, ← ih (i := i + 1)]
      cases allOfJson? (i + 1) vs with
      | error e => simp [Except.map]
      | ok qs => simp [Except.map, eq_comm]

theorem map_eq_error_iff {ε α β : Type} {f : α → β} {x : Except ε α} {e : ε} :
    x.map f = .error e ↔ x = .error e := by
  cases x <;> simp [Except.map]

/-- The constraints in front of the first one that is refused are all read. -/
theorem allOfJson?_eq_error_iff {i : Nat} {vs : List Json} {e : NodeError} :
    allOfJson? i vs = .error e ↔ ∃ k v e', vs[k]? = some v ∧ ofJson? v = .error e' ∧
      e = e'.inConstraint (i + k) ∧ ∀ j < k, ∀ u, vs[j]? = some u → ∃ p, ofJson? u = .ok p := by
  induction vs generalizing i with
  | nil => simp [allOfJson?]
  | cons v vs ih =>
    rw [allOfJson?]
    cases hv : ofJson? v with
    | error e₀ =>
      constructor
      · rintro ⟨⟩
        exact ⟨0, v, e₀, rfl, hv, rfl, fun j hj => absurd hj (Nat.not_lt_zero j)⟩
      · rintro ⟨k, u, e', hk, hu, rfl, hbefore⟩
        cases k with
        | zero =>
          cases hk
          cases hv.symm.trans hu
          rfl
        | succ k =>
          obtain ⟨p, hp⟩ := hbefore 0 k.succ_pos v rfl
          cases hv.symm.trans hp
    | ok p =>
      rw [map_eq_error_iff, ih]
      constructor
      · rintro ⟨k, u, e', hk, hu, rfl, hbefore⟩
        refine ⟨k + 1, u, e', hk, hu, by rw [Nat.add_right_comm, Nat.add_assoc], ?_⟩
        intro j hj w hw
        cases j with
        | zero => cases hw; exact ⟨p, hv⟩
        | succ j => exact hbefore j (Nat.lt_of_succ_lt_succ hj) w hw
      · rintro ⟨k, u, e', hk, hu, rfl, hbefore⟩
        cases k with
        | zero => cases hk; cases hv.symm.trans hu
        | succ k =>
          refine ⟨k, u, e', hk, hu, by rw [Nat.add_right_comm, Nat.add_assoc], ?_⟩
          exact fun j hj w hw => hbefore (j + 1) (Nat.succ_lt_succ hj) w hw

section

variable {members : List (String × Json)}

theorem ofJson?_of_logical (htype : member? "type" members = some (.text "logical"))
    {p : Predicate} : ofJson? (.object members) = .ok p ↔ ∃ op items cs,
      member? "operator" members = some (.text (LogicalOperator.keyword op)) ∧
        member? "constraints" members = some (.array items) ∧
        List.Forall₂ (fun v c => ofJson? v = .ok c) items cs ∧ p = .logical op cs := by
  rw [ofJson?, htype]
  constructor
  · intro h
    simp only at h
    split at h
    case h_2 => cases h
    rename_i op items hmem hnode
    obtain ⟨hop, hitems⟩ := logicalOfMembers_eq_ok_iff.1 hnode
    cases hcs : allOfJson? 0 items with
    | error e => rw [hcs] at h; cases h
    | ok cs =>
      rw [hcs] at h
      cases h
      exact ⟨op, items, cs, hop, hitems, allOfJson?_eq_ok_iff.1 hcs, rfl⟩
  · rintro ⟨op, items, cs, hop, hitems, hcs, rfl⟩
    have hnode : logicalOfMembers members = .ok (op, ⟨items, mem_of_member? hitems⟩) :=
      logicalOfMembers_eq_ok_iff.2 ⟨hop, hitems⟩
    simp only [hnode, allOfJson?_eq_ok_iff.2 hcs, Except.map]

theorem ofJson?_of_comparison (htype : member? "type" members = some (.text "comparison"))
    {p : Predicate} : ofJson? (.object members) = .ok p ↔ comparisonOfMembers members = .ok p := by
  rw [ofJson?, htype]
  cases comparisonOfMembers members with
  | error e => simp [Except.mapError]
  | ok q => simp [Except.mapError]

/-- Nodes of other types are refused. -/
theorem exists_type_of_ofJson? {j : Json} {p : Predicate} (h : ofJson? j = .ok p) :
    ∃ members, j = .object members ∧ (member? "type" members = some (.text "logical") ∨
      member? "type" members = some (.text "comparison")) := by
  cases j with
  | object members =>
    refine ⟨members, rfl, ?_⟩
    rw [ofJson?] at h
    split at h
    case h_1 htype => exact .inl htype
    case h_2 htype => exact .inr htype
    all_goals cases h
  | _ => rw [ofJson?_not_object (by simp)] at h; cases h

end

/-- **Nodes.** A JSON value is read as a predicate exactly if it describes it. By induction on the
predicate: the constraints of a node are read as what they describe. -/
theorem ofJson?_eq_ok_iff (p : Predicate) : ∀ j : Json, ofJson? j = .ok p ↔ Describes j p := by
  induction p using induction with
  | logical op cs ih =>
    have heach : ∀ items, List.Forall₂ (fun v c => ofJson? v = .ok c) items cs ↔
        List.Forall₂ Describes items cs := by
      intro items
      simp only [List.forall₂_iff_zip]
      exact and_congr_right fun _ => forall₂_congr fun v c =>
        ⟨fun h hmem => (ih c (List.of_mem_zip hmem).2 v).1 (h hmem),
          fun h hmem => (ih c (List.of_mem_zip hmem).2 v).2 (h hmem)⟩
    intro j
    constructor
    · intro h
      obtain ⟨members, rfl, htype | htype⟩ := exists_type_of_ofJson? h
      · obtain ⟨op', items, cs', hop, hitems, hcs, he⟩ := (ofJson?_of_logical htype).1 h
        cases he
        exact .logical htype hop hitems ((heach items).1 hcs)
      · obtain ⟨_, _, _, _, _, -, -, -, -, -, -, he⟩ :=
          comparisonOfMembers_eq_ok_iff.1 ((ofJson?_of_comparison htype).1 h)
        cases he
    · intro h
      cases h with
      | logical type operator constraints each =>
        exact (ofJson?_of_logical type).2
          ⟨op, _, cs, operator, constraints, (heach _).2 each, rfl⟩
  | comparison op id v =>
    intro j
    constructor
    · intro h
      obtain ⟨members, rfl, htype | htype⟩ := exists_type_of_ofJson? h
      · obtain ⟨_, _, _, -, -, -, he⟩ := (ofJson?_of_logical htype).1 h
        cases he
      · obtain ⟨op', args, id', j, v', hop, hargs, hid, hq, hj, hv, he⟩ :=
          comparisonOfMembers_eq_ok_iff.1 ((ofJson?_of_comparison htype).1 h)
        cases he
        exact .comparison htype hop hargs hid hq hj hv
    · intro h
      cases h with
      | comparison type operator arguments identifier quotable value literal =>
        exact (ofJson?_of_comparison type).2 (comparisonOfMembers_eq_ok_iff.2
          ⟨op, _, id, _, v, operator, arguments, identifier, quotable, value, literal, rfl⟩)

/-! ## JSON forms -/

theorem allToJson_eq_map (ps : List Predicate) : allToJson ps = ps.map toJson := by
  induction ps with
  | nil => rfl
  | cons p ps ih => rw [allToJson, ih, List.map_cons]

/-- The JSON form of a predicate describes it. -/
theorem describes_toJson (p : Predicate) : p.isWritable = true → Describes p.toJson p := by
  induction p using induction with
  | logical op cs ih =>
    intro h
    rw [isWritable, allWritable_iff] at h
    rw [toJson, allToJson_eq_map]
    refine .logical rfl rfl rfl ?_
    rw [List.forall₂_map_left_iff, List.forall₂_same]
    exact fun c hc => ih c hc (h c hc)
  | comparison op id v =>
    intro h
    rw [isWritable, Bool.and_eq_true] at h
    rw [toJson]
    exact .comparison rfl rfl rfl rfl h.1 rfl (Literal.ofJson?_toJson h.2)

theorem ofJson?_toJson {p : Predicate} (h : p.isWritable = true) : ofJson? p.toJson = .ok p :=
  (ofJson?_eq_ok_iff p p.toJson).2 (describes_toJson p h)

/-- What a node describes can be written: its reader refuses texts that cannot be quoted, and every
double in JSON is finite. -/
theorem isWritable_of_describes (p : Predicate) : ∀ j, Describes j p → p.isWritable = true := by
  induction p using induction with
  | logical op cs ih =>
    intro j h
    cases h with
    | @logical members items op cs type operator constraints each =>
      rw [isWritable, allWritable_iff]
      intro c hc
      obtain ⟨i, rfl⟩ := List.mem_iff_get.1 hc
      have hi : i < items.length := by rw [each.length_eq]; exact i.isLt
      exact ih _ hc _ (each.get hi i.isLt)
  | comparison op id v =>
    intro j h
    cases h with
    | comparison type operator arguments identifier quotable value literal =>
      rw [isWritable, quotable, Literal.isWritable_of_ofJson? literal]
      rfl

theorem isWritable_of_ofJson? {j : Json} {p : Predicate} (h : ofJson? j = .ok p) :
    p.isWritable = true :=
  isWritable_of_describes p j ((ofJson?_eq_ok_iff p j).1 h)

end Predicate
end JoinPlan
