import JoinPlan.Proofs.Predicate.Members
/-!
# Malformed nodes

A node is sound if it is a comparison, or if it is logical and holds an array of constraints, whatever
these are. Every other node is malformed, for one reason, which is the first thing that is wrong with
it.

Results:
* `Predicate.ofJson?_eq_error_nil_iff`: what is malformed is refused for the reason that makes it so.
* `Predicate.sound_or_malformed`, `Predicate.Sound.not_malformed`: a node is one or the other.
* `Predicate.ofJson?_eq_error_cons_iff`: errors from further down.
-/
namespace JoinPlan

/-! ## Reasons -/

/-- Why a JSON value stands for no literal. -/
inductive Literal.Malformed : Json → NodeError.Reason → Prop where
  | unquotable {t : String} (h : isQuotable t = false) : Malformed (.text t) .unquotableValue
  | array (items : List Json) : Malformed (.array items) .nestedValue
  | object (members : List (String × Json)) : Malformed (.object members) .nestedValue
  | range {i : Int} (hi : ∀ k : Int64, i ≠ k.toInt) (h : Magnitude.overflow ≤ |(i : ℚ)|) :
    Malformed (.number (.integer i)) (.numberRange (.integer i))

namespace Predicate
open Json

/-- What is wrong first with the arguments of a comparison. -/
inductive MalformedArguments : List (String × Json) → NodeError.Reason → Prop where
  | missingIdentifier {args : List (String × Json)}
    (h : ∀ id, member? "identifier" args ≠ some (.text id)) :
    MalformedArguments args .missingIdentifier
  | unquotableIdentifier {args : List (String × Json)} {id : String}
    (hid : member? "identifier" args = some (.text id)) (h : isQuotable id = false) :
    MalformedArguments args .unquotableIdentifier
  | missingValue {args : List (String × Json)} {id : String}
    (hid : member? "identifier" args = some (.text id)) (hq : isQuotable id = true)
    (h : member? "value" args = none) : MalformedArguments args .missingValue
  | value {args : List (String × Json)} {id : String} {j : Json} {reason : NodeError.Reason}
    (hid : member? "identifier" args = some (.text id)) (hq : isQuotable id = true)
    (hj : member? "value" args = some j) (h : Literal.Malformed j reason) :
    MalformedArguments args reason

/-- What is wrong first with a node, apart from its constraints. -/
inductive Malformed : Json → NodeError.Reason → Prop where
  | notObject {v : Json} (h : ∀ members, v ≠ .object members) : Malformed v .notObject
  | missingType {members : List (String × Json)} (h : member? "type" members = none) :
    Malformed (.object members) .missingType
  | typeNotText {members : List (String × Json)} {type : Json}
    (ht : member? "type" members = some type) (h : ∀ word, type ≠ .text word) :
    Malformed (.object members) .typeNotText
  | unknownType {members : List (String × Json)} {word : String}
    (ht : member? "type" members = some (.text word)) (hl : word ≠ "logical")
    (hc : word ≠ "comparison") : Malformed (.object members) (.unknownType word)
  | missingOperator {members : List (String × Json)}
    (ht : member? "type" members = some (.text "logical") ∨
      member? "type" members = some (.text "comparison"))
    (h : ∀ word, member? "operator" members ≠ some (.text word)) :
    Malformed (.object members) .missingOperator
  | unknownLogicalOperator {members : List (String × Json)} {word : String}
    (ht : member? "type" members = some (.text "logical"))
    (ho : member? "operator" members = some (.text word))
    (h : ∀ op : LogicalOperator, word ≠ op.keyword) :
    Malformed (.object members) (.unknownLogicalOperator word)
  | missingConstraints {members : List (String × Json)} {op : LogicalOperator}
    (ht : member? "type" members = some (.text "logical"))
    (ho : member? "operator" members = some (.text op.keyword))
    (h : ∀ items, member? "constraints" members ≠ some (.array items)) :
    Malformed (.object members) .missingConstraints
  | unknownComparisonOperator {members : List (String × Json)} {word : String}
    (ht : member? "type" members = some (.text "comparison"))
    (ho : member? "operator" members = some (.text word))
    (h : ∀ op : ComparisonOperator, word ≠ op.keyword) :
    Malformed (.object members) (.unknownComparisonOperator word)
  | missingArguments {members : List (String × Json)} {op : ComparisonOperator}
    (ht : member? "type" members = some (.text "comparison"))
    (ho : member? "operator" members = some (.text op.keyword))
    (h : ∀ args, member? "args" members ≠ some (.object args)) :
    Malformed (.object members) .missingArguments
  | arguments {members args : List (String × Json)} {op : ComparisonOperator}
    {reason : NodeError.Reason} (ht : member? "type" members = some (.text "comparison"))
    (ho : member? "operator" members = some (.text op.keyword))
    (ha : member? "args" members = some (.object args)) (h : MalformedArguments args reason) :
    Malformed (.object members) reason

/-- A logical node that holds some constraints, whatever these are. -/
inductive Holds : Json → List Json → Prop where
  | mk {members : List (String × Json)} {items : List Json} {op : LogicalOperator}
    (ht : member? "type" members = some (.text "logical"))
    (ho : member? "operator" members = some (.text op.keyword))
    (hc : member? "constraints" members = some (.array items)) : Holds (.object members) items

/-- A node that is well formed apart from its constraints. -/
inductive Sound : Json → Prop where
  | logical {v : Json} {items : List Json} (h : Holds v items) : Sound v
  | comparison {v : Json} {op : ComparisonOperator} {id : String} {a : Literal}
    (h : Describes v (.comparison op id a)) : Sound v

end Predicate

/-! ## Malformed values -/

namespace Literal

theorem ofNumber?_eq_none_iff {n : Json.Number} :
    ofNumber? n = none ↔ Malformed (.number n) (.numberRange n) := by
  cases n with
  | float negative x =>
    constructor
    · intro h; cases h
    · intro h; cases h
  | integer i =>
    rw [ofNumber?]
    split
    · rename_i hrange
      obtain ⟨k, hk⟩ := Parser.exists_int64_iff.1 hrange
      constructor
      · intro h; cases h
      · intro h
        cases h with
        | range hi h => exact absurd hk (hi k)
    · rename_i hrange
      have hi : ∀ k : Int64, i ≠ k.toInt :=
        fun k hk => hrange (Parser.exists_int64_iff.2 ⟨k, hk⟩)
      rw [Option.map_eq_none_iff, Magnitude.ofRatio?_eq_none_iff Nat.one_pos, natAbs_div_one]
      constructor
      · exact fun h => .range hi h
      · intro h
        cases h with
        | range _ h => exact h

theorem ofJson?_of_malformed {j : Json} {reason : NodeError.Reason} (h : Malformed j reason) :
    ofJson? j = .error reason := by
  cases h with
  | unquotable h => rw [ofJson?, if_neg (Bool.eq_false_iff.1 h)]
  | array items => rfl
  | object members => rfl
  | range hi h => rw [ofJson?, ofNumber?_eq_none_iff.2 (.range hi h)]

theorem describes_or_malformed (j : Json) :
    (∃ a, Describes j a) ∨ ∃ reason, Malformed j reason := by
  cases j with
  | null => exact .inl ⟨_, .null⟩
  | boolean b => exact .inl ⟨_, .boolean b⟩
  | number n =>
    cases hn : ofNumber? n with
    | some a => exact .inl ⟨a, ofNumber?_eq_some_iff.1 hn⟩
    | none => exact .inr ⟨_, ofNumber?_eq_none_iff.1 hn⟩
  | text t =>
    cases ht : isQuotable t with
    | true => exact .inl ⟨_, .text ht⟩
    | false => exact .inr ⟨_, .unquotable ht⟩
  | array items => exact .inr ⟨_, .array items⟩
  | object members => exact .inr ⟨_, .object members⟩

end Literal

/-! ## Malformed nodes -/

namespace Predicate
open Json

variable {v : Json} {items : List Json} {members args : List (String × Json)}
  {reason : NodeError.Reason}

theorem bind_text?_eq_none_iff {o : Option Json} :
    o.bind text? = none ↔ ∀ t, o ≠ some (.text t) := by
  cases o with
  | none => simp
  | some j => cases j <;> simp [text?]

theorem bind_constraintsOf?_eq_none {o : Option Json} (h : ∀ items, o ≠ some (.array items)) :
    o.bind constraintsOf? = none := by
  cases o with
  | none => rfl
  | some j =>
    cases j with
    | array items => exact absurd rfl (h items)
    | _ => rfl

theorem bind_argumentsOf?_eq_none {o : Option Json} (h : ∀ args, o ≠ some (.object args)) :
    o.bind argumentsOf? = none := by
  cases o with
  | none => rfl
  | some j =>
    cases j with
    | object args => exact absurd rfl (h args)
    | _ => rfl

theorem argumentsOfMembers_of_malformed (h : MalformedArguments args reason) :
    argumentsOfMembers args = .error reason := by
  rw [argumentsOfMembers]
  cases h with
  | missingIdentifier h => rw [bind_text?_eq_none_iff.2 h]
  | unquotableIdentifier hid h => simp [hid, text?, h]
  | missingValue hid hq h => simp [hid, text?, hq, h]
  | value hid hq hj h =>
    simp [hid, text?, hq, hj, Literal.ofJson?_of_malformed h, Except.map]

theorem operatorWord_of_no_text (h : ∀ word, member? "operator" members ≠ some (.text word)) :
    operatorWord members = .error .missingOperator := by
  rw [operatorWord_eq, bind_text?_eq_none_iff.2 h]

theorem comparisonOfMembers_of_keyword {op : ComparisonOperator}
    (ho : member? "operator" members = some (.text op.keyword)) : comparisonOfMembers members =
      match (member? "args" members).bind argumentsOf? with
      | some args => args.map fun (id, v) => .comparison op id v
      | none => .error .missingArguments := by
  rw [comparisonOfMembers_eq, operatorWord_eq_ok_iff.2 ho]
  cases op <;> rfl

theorem ofLogicalMembers_of_keyword {op : LogicalOperator}
    (ho : member? "operator" members = some (.text op.keyword)) : ofLogicalMembers members =
      match (member? "constraints" members).bind constraintsOf? with
      | some cs => cs.map (.logical op)
      | none => .error ⟨[], .missingConstraints⟩ := by
  rw [ofLogicalMembers, operatorWord_eq_ok_iff.2 ho]
  cases op <;> rfl

/-- A malformed node is refused for the reason that makes it malformed. -/
theorem ofJson?_of_malformed (h : Malformed v reason) : ofJson? v = .error ⟨[], reason⟩ := by
  cases h with
  | notObject h => exact ofJson?_not_object h
  | missingType h => rw [ofJson?, h]
  | @typeNotText members type ht h =>
    rw [ofJson?_object, typeWord?, ht]
    cases type with
    | text word => exact absurd rfl (h word)
    | _ => rfl
  | unknownType ht hl hc =>
    rw [ofJson?_object, typeWord?, ht]
    simp [text?]
  | missingOperator ht h =>
    rcases ht with ht | ht
    · rw [ofJson?_of_type_logical ht, ofLogicalMembers, operatorWord_of_no_text h]
    · rw [ofJson?_of_type_comparison ht, comparisonOfMembers_eq, operatorWord_of_no_text h]
      rfl
  | @unknownLogicalOperator members word ht ho h =>
    have hnone : LogicalOperator.ofKeyword? word = none :=
      Option.eq_none_iff_forall_ne_some.2 fun op hop =>
        h op (LogicalOperator.ofKeyword?_eq_some_iff.1 hop)
    rw [ofJson?_of_type_logical ht, ofLogicalMembers, operatorWord_eq_ok_iff.2 ho]
    simp only [hnone]
  | missingConstraints ht ho h =>
    rw [ofJson?_of_type_logical ht, ofLogicalMembers_of_keyword ho, bind_constraintsOf?_eq_none h]
  | @unknownComparisonOperator members word ht ho h =>
    have hnone : ComparisonOperator.ofKeyword? word = none :=
      Option.eq_none_iff_forall_ne_some.2 fun op hop =>
        h op (ComparisonOperator.ofKeyword?_eq_some_iff.1 hop)
    rw [ofJson?_of_type_comparison ht, comparisonOfMembers_eq, operatorWord_eq_ok_iff.2 ho]
    simp only [hnone]
    rfl
  | missingArguments ht ho h =>
    rw [ofJson?_of_type_comparison ht, comparisonOfMembers_of_keyword ho,
      bind_argumentsOf?_eq_none h]
    rfl
  | arguments ht ho ha h =>
    rw [ofJson?_of_type_comparison ht, comparisonOfMembers_of_keyword ho, ha]
    simp only [Option.bind, argumentsOf?, argumentsOfMembers_of_malformed h]
    rfl

/-- A logical node is what its constraints are. -/
theorem ofJson?_of_holds (h : Holds v items) :
    ∃ op, ofJson? v = (allOfJson? 0 items).map (.logical op) := by
  obtain ⟨ht, ho, hc⟩ := h
  exact ⟨_, by rw [ofJson?_of_type_logical ht, ofLogicalMembers_of_keyword ho, hc]; rfl⟩

/-! ## All kinds of nodes -/

theorem arguments_or_malformed (args : List (String × Json)) :
    (∃ id j a, member? "identifier" args = some (.text id) ∧ isQuotable id = true ∧
      member? "value" args = some j ∧ Literal.Describes j a) ∨
    ∃ reason, MalformedArguments args reason := by
  by_cases hid : ∃ id, member? "identifier" args = some (.text id)
  · obtain ⟨id, hid⟩ := hid
    cases hq : isQuotable id with
    | false => exact .inr ⟨_, .unquotableIdentifier hid hq⟩
    | true =>
      cases hj : member? "value" args with
      | none => exact .inr ⟨_, .missingValue hid hq hj⟩
      | some j =>
        rcases Literal.describes_or_malformed j with ⟨a, ha⟩ | ⟨reason, hr⟩
        · exact .inl ⟨id, j, a, hid, hq, rfl, ha⟩
        · exact .inr ⟨reason, .value hid hq hj hr⟩
  · exact .inr ⟨_, .missingIdentifier (not_exists.1 hid)⟩

theorem logical_or_malformed (ht : member? "type" members = some (.text "logical")) :
    (∃ items, Holds (.object members) items) ∨ ∃ reason, Malformed (.object members) reason := by
  by_cases ho : ∃ word, member? "operator" members = some (.text word)
  · obtain ⟨word, ho⟩ := ho
    by_cases hop : ∃ op : LogicalOperator, word = op.keyword
    · obtain ⟨op, rfl⟩ := hop
      by_cases hc : ∃ items, member? "constraints" members = some (.array items)
      · obtain ⟨items, hc⟩ := hc
        exact .inl ⟨items, .mk ht ho hc⟩
      · exact .inr ⟨_, .missingConstraints ht ho (not_exists.1 hc)⟩
    · exact .inr ⟨_, .unknownLogicalOperator ht ho (not_exists.1 hop)⟩
  · exact .inr ⟨_, .missingOperator (.inl ht) (not_exists.1 ho)⟩

theorem comparison_or_malformed (ht : member? "type" members = some (.text "comparison")) :
    (∃ op id a, Describes (.object members) (.comparison op id a)) ∨
      ∃ reason, Malformed (.object members) reason := by
  by_cases ho : ∃ word, member? "operator" members = some (.text word)
  · obtain ⟨word, ho⟩ := ho
    by_cases hop : ∃ op : ComparisonOperator, word = op.keyword
    · obtain ⟨op, rfl⟩ := hop
      by_cases ha : ∃ args, member? "args" members = some (.object args)
      · obtain ⟨args, ha⟩ := ha
        rcases arguments_or_malformed args with ⟨id, j, a, hid, hq, hj, hv⟩ | ⟨reason, hr⟩
        · exact .inl ⟨op, id, a, .comparison ht ho ha hid hq hj (Literal.ofJson?_eq_ok_iff.2 hv)⟩
        · exact .inr ⟨reason, .arguments ht ho ha hr⟩
      · exact .inr ⟨_, .missingArguments ht ho (not_exists.1 ha)⟩
    · exact .inr ⟨_, .unknownComparisonOperator ht ho (not_exists.1 hop)⟩
  · exact .inr ⟨_, .missingOperator (.inr ht) (not_exists.1 ho)⟩

/-- **Kinds.** A node is sound or malformed. -/
theorem sound_or_malformed (v : Json) : Sound v ∨ ∃ reason, Malformed v reason := by
  cases v with
  | object members =>
    cases ht : member? "type" members with
    | none => exact .inr ⟨_, .missingType ht⟩
    | some type =>
      by_cases hword : ∃ word, type = .text word
      · obtain ⟨word, rfl⟩ := hword
        by_cases hl : word = "logical"
        · subst hl
          exact (logical_or_malformed ht).imp_left fun ⟨items, h⟩ => .logical h
        · by_cases hc : word = "comparison"
          · subst hc
            exact (comparison_or_malformed ht).imp_left fun ⟨op, id, a, h⟩ => .comparison h
          · exact .inr ⟨_, .unknownType ht hl hc⟩
      · exact .inr ⟨_, .typeNotText ht (not_exists.1 hword)⟩
  | _ => exact .inr ⟨_, .notObject (by simp)⟩

/-- What a comparison describes is read, and an error of a logical node is one of its constraints. -/
theorem Sound.not_refused (h : Sound v) : ofJson? v ≠ .error ⟨[], reason⟩ := by
  intro herror
  cases h with
  | logical h =>
    obtain ⟨op, hread⟩ := ofJson?_of_holds h
    rw [hread, map_eq_error_iff] at herror
    obtain ⟨k, u, e', -, -, hlocation, -⟩ := allOfJson?_eq_error_iff.1 herror
    cases hlocation
  | comparison h =>
    rw [(ofJson?_eq_ok_iff _ v).2 h] at herror
    cases herror

theorem Sound.not_malformed (h : Sound v) : ¬ Malformed v reason :=
  fun hm => h.not_refused (ofJson?_of_malformed hm)

theorem ofJson?_eq_error_nil_iff : ofJson? v = .error ⟨[], reason⟩ ↔ Malformed v reason := by
  constructor
  · intro h
    rcases sound_or_malformed v with hs | ⟨reason', hm⟩
    · exact absurd h hs.not_refused
    · cases (ofJson?_of_malformed hm).symm.trans h
      exact hm
  · exact ofJson?_of_malformed

/-- **Errors from further down.** A node is refused for a node further down if it is logical, the
constraint that is on the way is refused, and the constraints in front of that one are read. -/
theorem ofJson?_eq_error_cons_iff {i : Nat} {l : List Nat} :
    ofJson? v = .error ⟨i :: l, reason⟩ ↔ ∃ items u, Holds v items ∧ items[i]? = some u ∧
      ofJson? u = .error ⟨l, reason⟩ ∧ ∀ j < i, ∀ s, items[j]? = some s → ∃ p, ofJson? s = .ok p := by
  constructor
  · intro h
    rcases sound_or_malformed v with hs | ⟨reason', hm⟩
    · cases hs with
      | @logical items hv =>
        obtain ⟨op, hread⟩ := ofJson?_of_holds hv
        rw [hread, map_eq_error_iff] at h
        obtain ⟨k, u, ⟨l', r'⟩, hk, hu, he, hbefore⟩ := allOfJson?_eq_error_iff.1 h
        simp only [NodeError.inConstraint, Nat.zero_add, NodeError.mk.injEq, List.cons.injEq] at he
        obtain ⟨⟨rfl, rfl⟩, rfl⟩ := he
        exact ⟨items, u, hv, hk, hu, hbefore⟩
      | comparison hv => cases ((ofJson?_eq_ok_iff _ v).2 hv).symm.trans h
    · cases (ofJson?_of_malformed hm).symm.trans h
  · rintro ⟨items, u, hv, hi, hu, hbefore⟩
    obtain ⟨op, hread⟩ := ofJson?_of_holds hv
    rw [hread, map_eq_error_iff, allOfJson?_eq_error_iff]
    exact ⟨i, u, ⟨l, reason⟩, hi, hu, by rw [Nat.zero_add]; rfl, hbefore⟩

end Predicate
end JoinPlan
