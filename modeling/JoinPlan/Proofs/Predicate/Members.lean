import Mathlib.Logic.Relation
import JoinPlan.Proofs.Predicate.Nodes
import JoinPlan.Proofs.Predicate.Tokens
/-!
# What is read of a node

A node is an object, and of an object only some members are read. Which ones depends on the place
where the object stands and, in a node, on its type. All other members, and the order in which the
members are written, have no influence on what is read, nor on why nothing is.

Results:
* `Literal.ofJson?_eq_ok_iff`: the values that a JSON value stands for.
* `Predicate.ofJson?_object`, `Predicate.comparisonOfMembers_eq`: a node by its members.
* `Predicate.sameAt_object`, `Predicate.sameAt_array`, `Predicate.Edit.sameAt`: what is read decides.
* `Predicate.ofJson?_eq_ok_iff_describes`: which JSON values are read, and as what.
-/
namespace JoinPlan

/-! ## Values -/

namespace Literal

/-- A JSON value stands for a literal. A number that is stored as an integer of 64 bits is that
integer; every other number is a float, the double that is stored or the one nearest to the integer
that is. -/
inductive Describes : Json → Literal → Prop where
  | null : Describes .null .null
  | boolean (b : Bool) : Describes (.boolean b) (.boolean b)
  | text {t : String} (h : isQuotable t = true) : Describes (.text t) (.text t)
  | integer {i : Int} {k : Int64} (h : i = k.toInt) : Describes (.number (.integer i)) (.integer k)
  | wide {i : Int} {x : Magnitude} (hi : ∀ k : Int64, i ≠ k.toInt)
    (hx : Magnitude.Nearest |(i : ℚ)| x) :
    Describes (.number (.integer i)) (.float (.finite (i < 0) x))
  | float (negative : Bool) (x : Magnitude) :
    Describes (.number (.float negative x)) (.float (.finite negative x))

theorem natAbs_div_one (i : Int) : ((i.natAbs : ℕ) : ℚ) / (1 : ℕ) = |(i : ℚ)| := by
  rw [Nat.cast_one, div_one, Nat.cast_natAbs, Int.cast_abs]

theorem ofNumber?_eq_some_iff {n : Json.Number} {v : Literal} :
    ofNumber? n = some v ↔ Describes (.number n) v := by
  cases n with
  | float negative x =>
    rw [ofNumber?, Option.some.injEq]
    constructor
    · rintro rfl
      exact .float negative x
    · intro h
      cases h
      rfl
  | integer i =>
    rw [ofNumber?]
    split
    · rename_i h
      obtain ⟨k, rfl⟩ := Parser.exists_int64_iff.1 h
      rw [Int64.ofInt_toInt, Option.some.injEq]
      constructor
      · rintro rfl
        exact .integer rfl
      · intro h
        cases h with
        | integer h => rw [Int64.toInt_inj.1 h]
        | wide hi hx => exact absurd rfl (hi k)
    · rename_i h
      have hi : ∀ k : Int64, i ≠ k.toInt := fun k hk => h (Parser.exists_int64_iff.2 ⟨k, hk⟩)
      simp only [Option.map_eq_some_iff, Magnitude.ofRatio?_eq_some_iff Nat.one_pos,
        natAbs_div_one]
      constructor
      · rintro ⟨x, hx, rfl⟩
        exact .wide hi hx
      · intro h
        cases h with
        | integer h => exact absurd h (hi _)
        | wide _ hx => exact ⟨_, hx, rfl⟩

/-- **Values.** A JSON value is read as a literal exactly if it stands for it. -/
theorem ofJson?_eq_ok_iff {j : Json} {v : Literal} : ofJson? j = .ok v ↔ Describes j v := by
  constructor
  · intro h
    cases j with
    | null => cases h; exact .null
    | boolean b => cases h; exact .boolean b
    | number n =>
      rw [ofJson?] at h
      split at h
      · rename_i w hw
        cases h
        exact ofNumber?_eq_some_iff.1 hw
      · cases h
    | text t =>
      rw [ofJson?] at h
      split at h
      · rename_i ht
        cases h
        exact .text ht
      · cases h
    | array items => cases h
    | object members => cases h
  · intro h
    have number : ∀ {n : Json.Number}, Describes (.number n) v → ofJson? (.number n) = .ok v := by
      intro n h
      rw [ofJson?, ofNumber?_eq_some_iff.2 h]
    cases h with
    | null => rfl
    | boolean b => rfl
    | text h => exact if_pos h
    | integer h => exact number (.integer h)
    | wide hi hx => exact number (.wide hi hx)
    | float negative x => rfl

end Literal

/-! ## Members -/

namespace Json

variable {name : String} {l r : List (String × Json)}

def text? : Json → Option String
  | .text t => some t
  | _ => none

theorem member?_cons (name : String) (m : String × Json) (l : List (String × Json)) :
    member? name (m :: l) = (member? name l).or (if m.1 = name then some m.2 else none) := by
  obtain ⟨key, value⟩ := m
  rw [member?]
  cases member? name l <;> rfl

/-- What is written further on counts. -/
theorem member?_append : member? name (l ++ r) = (member? name r).or (member? name l) := by
  induction l with
  | nil => rw [List.nil_append, member?, Option.or_none]
  | cons m l ih => rw [List.cons_append, member?_cons, member?_cons, ih, Option.or_assoc]

theorem member?_insert_of_ne {m : String × Json} (h : m.1 ≠ name) :
    member? name (l ++ m :: r) = member? name (l ++ r) := by
  rw [member?_append, member?_append, member?_cons, if_neg h, Option.or_none]

theorem member?_swap {a b : String × Json} (h : a.1 ≠ b.1) :
    member? name (l ++ a :: b :: r) = member? name (l ++ b :: a :: r) := by
  simp only [member?_append, member?_cons]
  by_cases ha : a.1 = name
  · have hb : b.1 ≠ name := fun hb => h (ha.trans hb.symm)
    simp [hb]
  · simp [ha]

end Json

namespace Predicate
open Json

/-! ## Nodes by their members -/

/-- The identifier and the value of a comparison from the members of its arguments. -/
def argumentsOfMembers (args : List (String × Json)) :
    Except NodeError.Reason (String × Literal) :=
  match (member? "identifier" args).bind text? with
  | some id =>
    if isQuotable id then
      match (member? "value" args).map Literal.ofJson? with
      | some v => v.map (id, ·)
      | none => .error .missingValue
    else .error .unquotableIdentifier
  | none => .error .missingIdentifier

/-- What an object is read as where arguments stand. -/
def argumentsOf? : Json → Option (Except NodeError.Reason (String × Literal))
  | .object args => some (argumentsOfMembers args)
  | _ => none

/-- What an array is read as where constraints stand. -/
def constraintsOf? : Json → Option (Except NodeError (List Predicate))
  | .array items => some (allOfJson? 0 items)
  | _ => none

section

variable {members : List (String × Json)}

theorem operatorWord_eq (members : List (String × Json)) : operatorWord members =
    match (member? "operator" members).bind text? with
    | some word => .ok word
    | none => .error .missingOperator := by
  rw [operatorWord]
  cases member? "operator" members with
  | none => rfl
  | some j => cases j <;> rfl

theorem comparisonOfMembers_eq (members : List (String × Json)) : comparisonOfMembers members =
    match operatorWord members with
    | .error reason => .error reason
    | .ok word =>
      match ComparisonOperator.ofKeyword? word with
      | none => .error (.unknownComparisonOperator word)
      | some op =>
        match (member? "args" members).bind argumentsOf? with
        | some args => args.map fun (id, v) => .comparison op id v
        | none => .error .missingArguments := by
  rw [comparisonOfMembers]
  cases operatorWord members with
  | error reason => rfl
  | ok word =>
    simp only [bind, Except.bind]
    cases ComparisonOperator.ofKeyword? word with
    | none => rfl
    | some op =>
      cases member? "args" members with
      | none => rfl
      | some args =>
        cases args with
        | object args =>
          simp only [Option.bind, argumentsOf?, argumentsOfMembers]
          cases member? "identifier" args with
          | none => rfl
          | some id =>
            cases id with
            | text id =>
              simp only [text?]
              split
              · cases member? "value" args with
                | none => rfl
                | some j => simp only [Option.map]; cases Literal.ofJson? j <;> rfl
              · rfl
            | _ => rfl
        | _ => rfl

/-- A logical node from its members. -/
def ofLogicalMembers (members : List (String × Json)) : Except NodeError Predicate :=
  match operatorWord members with
  | .error reason => .error ⟨[], reason⟩
  | .ok word =>
    match LogicalOperator.ofKeyword? word with
    | none => .error ⟨[], .unknownLogicalOperator word⟩
    | some op =>
      match (member? "constraints" members).bind constraintsOf? with
      | some cs => cs.map (.logical op)
      | none => .error ⟨[], .missingConstraints⟩

theorem ofJson?_of_type_logical (htype : member? "type" members = some (.text "logical")) :
    ofJson? (.object members) = ofLogicalMembers members := by
  rw [ofJson?, htype, ofLogicalMembers]
  simp only [logicalOfMembers]
  cases operatorWord members with
  | error reason => rfl
  | ok word =>
    simp only [bind, Except.bind]
    cases LogicalOperator.ofKeyword? word with
    | none => rfl
    | some op =>
      simp only
      -- the array is found together with the proof that it is smaller, or not at all
      split
      · rename_i found
        split at found
        · rename_i items hitems
          cases found
          rw [hitems]
          rfl
        · cases found
      · rename_i failed
        split at failed
        · cases failed
        · rename_i hnone
          cases failed
          cases hmember : member? "constraints" members with
          | none => rfl
          | some j =>
            cases j with
            | array items => exact absurd hmember (hnone items)
            | _ => rfl

theorem ofJson?_of_type_comparison (htype : member? "type" members = some (.text "comparison")) :
    ofJson? (.object members) = (comparisonOfMembers members).mapError (⟨[], ·⟩) := by
  rw [ofJson?, htype]
  rfl

/-- The word that tells the type of a node: there may be no type, or one that is no text. -/
def typeWord? (members : List (String × Json)) : Option (Option String) :=
  (member? "type" members).map text?

/-- **Types.** The type decides what else is read of a node. -/
theorem ofJson?_object (members : List (String × Json)) : ofJson? (.object members) =
    match typeWord? members with
    | some (some "logical") => ofLogicalMembers members
    | some (some "comparison") => (comparisonOfMembers members).mapError (⟨[], ·⟩)
    | some (some word) => .error ⟨[], .unknownType word⟩
    | some none => .error ⟨[], .typeNotText⟩
    | none => .error ⟨[], .missingType⟩ := by
  rw [typeWord?]
  cases htype : member? "type" members with
  | none => rw [ofJson?, htype]; rfl
  | some type =>
    cases type with
    | text word =>
      by_cases hlogical : word = "logical"
      · subst hlogical
        exact ofJson?_of_type_logical htype
      · by_cases hcomparison : word = "comparison"
        · subst hcomparison
          exact ofJson?_of_type_comparison htype
        · rw [ofJson?, htype]
          simp [text?]
    | _ => rw [ofJson?, htype]; rfl

end

/-! ## Places -/

/-- What a part of a node is read as. -/
inductive Place where
  | node
  | constraints
  | arguments
  | scalar
  deriving DecidableEq, Repr

namespace Place

/-- What the items of an array are read as. -/
def item : Place → Place
  | .constraints => .node
  | _ => .scalar

/-- What a member of an object is read as, if it is. -/
def member : Place → String → Place
  | .node, "constraints" => .constraints
  | .node, "args" => .arguments
  | _, _ => .scalar

/-- Which members of an object are read. -/
def names : Place → List (String × Json) → List String
  | .node, members =>
    match typeWord? members with
    | some (some "logical") => ["type", "operator", "constraints"]
    | some (some "comparison") => ["type", "operator", "args"]
    | _ => ["type"]
  | .arguments, _ => ["identifier", "value"]
  | _, _ => []

end Place

theorem names_node (members : List (String × Json)) : Place.node.names members =
    match typeWord? members with
    | some (some "logical") => ["type", "operator", "constraints"]
    | some (some "comparison") => ["type", "operator", "args"]
    | _ => ["type"] := rfl

/-- One change in how a value at a place is written, at any depth: two members of an object that have
different names are exchanged, or an object gets a member that is not read. -/
inductive Edit : Place → Json → Json → Prop where
  | swap {place : Place} {l r : List (String × Json)} {a b : String × Json} (h : a.1 ≠ b.1) :
    Edit place (.object (l ++ a :: b :: r)) (.object (l ++ b :: a :: r))
  | other {place : Place} {l r : List (String × Json)} {m : String × Json}
    (h : m.1 ∉ place.names (l ++ r)) : Edit place (.object (l ++ r)) (.object (l ++ m :: r))
  | member {place : Place} {l r : List (String × Json)} {name : String} {v w : Json}
    (h : Edit (place.member name) v w) :
    Edit place (.object (l ++ (name, v) :: r)) (.object (l ++ (name, w) :: r))
  | item {place : Place} {l r : List Json} {v w : Json} (h : Edit place.item v w) :
    Edit place (.array (l ++ v :: r)) (.array (l ++ w :: r))

/-- Two values have the same outcome at a place. -/
def SameAt : Place → Json → Json → Prop
  | .node, v, w => ofJson? v = ofJson? w
  | .constraints, v, w => constraintsOf? v = constraintsOf? w
  | .arguments, v, w => argumentsOf? v = argumentsOf? w
  | .scalar, v, w => v.text? = w.text? ∧ Literal.ofJson? v = Literal.ofJson? w

theorem SameAt.refl (place : Place) (v : Json) : SameAt place v v := by
  cases place
  case scalar => exact ⟨rfl, rfl⟩
  all_goals rfl

theorem optionRel_sameAt_refl (place : Place) (o : Option Json) : o.Rel (SameAt place) o := by
  cases o with
  | none => exact .none
  | some v => exact .some (.refl place v)

theorem bind_eq_of_rel {α : Type} {R : Json → Json → Prop} {f : Json → Option α}
    (hf : ∀ v w, R v w → f v = f w) {o o' : Option Json} (h : o.Rel R o') :
    o.bind f = o'.bind f := by
  cases h with
  | none => rfl
  | some h => exact hf _ _ h

theorem allOfJson?_congr {v w : Json} (h : ofJson? v = ofJson? w) (l r : List Json) (i : Nat) :
    allOfJson? i (l ++ v :: r) = allOfJson? i (l ++ w :: r) := by
  induction l generalizing i with
  | nil => rw [List.nil_append, List.nil_append, allOfJson?, allOfJson?, h]
  | cons u l ih => rw [List.cons_append, List.cons_append, allOfJson?, allOfJson?, ih]

/-- **Arrays.** An array has the outcome that its items have. -/
theorem sameAt_array {place : Place} {l r : List Json} {v w : Json} (h : SameAt place.item v w) :
    SameAt place (.array (l ++ v :: r)) (.array (l ++ w :: r)) := by
  cases place with
  | node =>
    have hnone : ∀ items, ofJson? (.array items) = .error ⟨[], .notObject⟩ := fun items =>
      ofJson?_not_object (by simp)
    exact (hnone _).trans (hnone _).symm
  | constraints => exact congrArg some (allOfJson?_congr h l r 0)
  | arguments => rfl
  | scalar => exact ⟨rfl, rfl⟩

theorem operatorWord_congr {ms ms' : List (String × Json)}
    (h : (member? "operator" ms).Rel (SameAt .scalar) (member? "operator" ms')) :
    operatorWord ms = operatorWord ms' := by
  rw [operatorWord_eq, operatorWord_eq, bind_eq_of_rel (fun v w h => h.1) h]

theorem argumentsOfMembers_congr {ms ms' : List (String × Json)}
    (hid : (member? "identifier" ms).Rel (SameAt .scalar) (member? "identifier" ms'))
    (hvalue : (member? "value" ms).Rel (SameAt .scalar) (member? "value" ms')) :
    argumentsOfMembers ms = argumentsOfMembers ms' := by
  rw [argumentsOfMembers, argumentsOfMembers, bind_eq_of_rel (fun v w h => h.1) hid,
    Option.map_eq_bind, Option.map_eq_bind,
    bind_eq_of_rel (f := some ∘ Literal.ofJson?) (fun v w h => congrArg some h.2) hvalue]

/-- A node has the outcome that the members have that are read of it. -/
theorem ofJson?_congr {ms ms' : List (String × Json)}
    (h : ∀ name ∈ Place.node.names ms,
      (member? name ms).Rel (SameAt (Place.node.member name)) (member? name ms')) :
    ofJson? (.object ms) = ofJson? (.object ms') := by
  have htype : typeWord? ms = typeWord? ms' := by
    have hrel := h "type" (by rw [names_node]; split <;> simp)
    rw [typeWord?, typeWord?, Option.map_eq_bind, Option.map_eq_bind,
      bind_eq_of_rel (f := some ∘ text?) (fun v w h => congrArg some h.1) hrel]
  rw [ofJson?_object, ofJson?_object, ← htype]
  generalize hword : typeWord? ms = word
  split
  · rw [names_node, hword] at h
    rw [ofLogicalMembers, ofLogicalMembers, operatorWord_congr (h "operator" (by simp)),
      bind_eq_of_rel (fun v w h => h) (h "constraints" (by simp))]
  · rw [names_node, hword] at h
    rw [comparisonOfMembers_eq, comparisonOfMembers_eq, operatorWord_congr (h "operator" (by simp)),
      bind_eq_of_rel (fun v w h => h) (h "args" (by simp))]
  all_goals rfl

/-- **Objects.** An object has the outcome that the members have that are read of it. -/
theorem sameAt_object {place : Place} {ms ms' : List (String × Json)}
    (h : ∀ name ∈ place.names ms,
      (member? name ms).Rel (SameAt (place.member name)) (member? name ms')) :
    SameAt place (.object ms) (.object ms') := by
  cases place with
  | node => exact ofJson?_congr h
  | constraints => rfl
  | arguments =>
    exact congrArg some (argumentsOfMembers_congr (h "identifier" (by simp [Place.names]))
      (h "value" (by simp [Place.names])))
  | scalar => exact ⟨rfl, rfl⟩

/-- **Step.** One change in how a value is written keeps its outcome. By induction on the depth of
the change. -/
theorem Edit.sameAt {place : Place} {v w : Json} (h : Edit place v w) : SameAt place v w := by
  induction h with
  | @swap place l r a b hne =>
    refine sameAt_object fun name _ => ?_
    rw [member?_swap hne]
    exact optionRel_sameAt_refl _ _
  | @other place l r m hm =>
    refine sameAt_object fun name hname => ?_
    rw [member?_insert_of_ne (ne_of_mem_of_not_mem hname hm).symm]
    exact optionRel_sameAt_refl _ _
  | @member place l r name v w _ ih =>
    refine sameAt_object fun name' _ => ?_
    by_cases hname : name = name'
    · subst hname
      rw [member?_append, member?_append, member?_cons, member?_cons, if_pos rfl, if_pos rfl]
      -- a member of the same name that is written further on hides the change
      cases member? name r with
      | none => exact .some ih
      | some u => exact .some (.refl _ u)
    · rw [member?_insert_of_ne hname, member?_insert_of_ne hname]
      exact optionRel_sameAt_refl _ _
  | item _ ih => exact sameAt_array ih

/-- **Nodes.** A JSON value is read as a predicate exactly if it describes it, where its values stand
for literals. Members that are not read, and the order of members, have no influence at any depth,
neither on the predicate that is read nor on the error. -/
theorem ofJson?_eq_ok_iff_describes (v : Json) :
    (∀ p, ofJson? v = .ok p ↔ Describes v p) ∧
    (∀ j a, Literal.ofJson? j = .ok a ↔ Literal.Describes j a) ∧
    ∀ w, Relation.EqvGen (Edit .node) v w → ofJson? w = ofJson? v := by
  refine ⟨fun p => ofJson?_eq_ok_iff p v, fun j a => Literal.ofJson?_eq_ok_iff, fun w h => ?_⟩
  induction h with
  | rel v w h => exact h.sameAt.symm
  | refl v => rfl
  | symm v w _ ih => exact ih.symm
  | trans u v w _ _ ih ih' => exact ih'.trans ih

/-- The members of a node in another order, arguments in a logical node and a note in the arguments of
a constraint; and an integer that does not fit 64 bits with a sign. -/
theorem ofJson?_eq_ok_iff_describes_of_notes :
    let node (args : List (String × Json)) : Json := .object [("type", .text "comparison"),
      ("operator", .text "lt"), ("args", .object args)]
    let v : Json := .object [("type", .text "logical"), ("operator", .text "match_any"),
      ("constraints", .array [node [("identifier", .text "a"),
        ("value", .number (.integer 9223372036854775808))]])]
    let w : Json := .object [("operator", .text "match_any"), ("type", .text "logical"),
      ("args", .null), ("constraints", .array [node [("identifier", .text "a"),
        ("note", .boolean true), ("value", .number (.integer 9223372036854775808))]])]
    let x : Magnitude := ⟨4503599627370496, 11, by decide, by decide, by decide⟩
    let p : Predicate := .logical .matchAny [.comparison .lt "a" (.float (.finite false x))]
    Relation.EqvGen (Edit .node) v w ∧ ofJson? v = .ok p ∧ ofJson? w = .ok p := by
  intro node v w x p
  have hvalue : Literal.ofJson? (.number (.integer 9223372036854775808)) =
      .ok (.float (.finite false x)) := by decide
  have hv : ofJson? v = .ok p := ((ofJson?_eq_ok_iff_describes v).1 p).2
    (.logical rfl rfl rfl (.cons (.comparison rfl rfl rfl rfl (by decide) rfl hvalue) .nil))
  have hedits : Relation.EqvGen (Edit .node) v w :=
    .trans _ _ _ (.rel _ _ (.swap (l := []) (by decide)))
      (.trans _ _ _ (.rel _ _ (.other (l := [_, _]) (m := ("args", .null)) (by decide)))
        (.rel _ _ (.member (l := [_, _, _]) (.item (l := []) (.member (l := [_, _])
          (.other (l := [_]) (m := ("note", .boolean true)) (by decide)))))))
  exact ⟨hedits, hv, ((ofJson?_eq_ok_iff_describes v).2.2 w hedits).trans hv⟩

end Predicate
end JoinPlan
