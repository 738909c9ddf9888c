import JoinPlan.Json.Basic
import JoinPlan.Json.Printer
import JoinPlan.Predicate.Basic
/-!
# Predicates as JSON

A node is an object with a `type` of `logical` or `comparison`, an `operator`, and either the array
`constraints` or the object `args` with an `identifier` and a `value`. Other members are ignored.
What is not of this shape is refused, and the refusal names the node and the first thing that is
wrong with it. The node is named by its place, which is put together on the way back from it;
`ofJsonAt?` is the reader that takes the way to a node along.

Results:
* `Predicate.ofJson?_not_object`: what is no object is refused at the root.
-/
namespace JoinPlan

/-- What is wrong with a node. -/
inductive NodeError.Reason where
  | notObject
  | missingType
  | unknownType (type : String)
  | typeNotText
  | missingOperator
  | unknownLogicalOperator (word : String)
  | missingConstraints
  | unknownComparisonOperator (word : String)
  | missingArguments
  | missingIdentifier
  | unquotableIdentifier
  | missingValue
  | unquotableValue
  | nestedValue
  | numberRange (value : Json.Number)
  deriving DecidableEq, Repr

/-- A malformed node, and which constraints lead to it from the root.
mirrors `RelationCompileError.InvalidPredicateNode` -/
structure NodeError where
  location : List Nat
  reason : NodeError.Reason
  deriving DecidableEq, Repr

namespace NodeError

/-- mirrors the reasons given to `invalid` -/
def Reason.message : Reason → String
  | .notObject => "node is not an object"
  | .missingType => "missing `type` tag"
  | .unknownType type => "unrecognized node type `" ++ type ++ "`"
  | .typeNotText => "`type` tag is not a string"
  | .missingOperator => "missing or non-string `operator`"
  | .unknownLogicalOperator word => "unknown logical operator `" ++ word ++ "`"
  | .missingConstraints => "logical node without a `constraints` array"
  | .unknownComparisonOperator word => "unknown comparison operator `" ++ word ++ "`"
  | .missingArguments => "comparison node without an `args` object"
  | .missingIdentifier => "comparison without a string `args.identifier`"
  | .unquotableIdentifier => "identifier mixes single and double quotes"
  | .missingValue => "comparison without `args.value`"
  | .unquotableValue => "string value mixes single and double quotes"
  | .nestedValue => "comparison value must be a scalar"
  | .numberRange n => "numeric value " ++ String.ofList n.write ++ " out of range"

/-- The way to constraint `i` of the node that `way` leads to. -/
def constraintWay (way : String) (i : Nat) : String :=
  way ++ ".constraints[" ++ toString i ++ "]"

/-- The way to a node from the root, which is `$`. -/
def path (location : List Nat) : String :=
  location.foldl constraintWay "$"

/-- mirrors `fmt` of `RelationCompileError` -/
def message (e : NodeError) : String :=
  "Invalid predicate node at " ++ path e.location ++ ": " ++ e.reason.message

/-- The error as seen from the node that holds the malformed one as constraint `i`. -/
def inConstraint (i : Nat) (e : NodeError) : NodeError :=
  { e with location := i :: e.location }

end NodeError

namespace Literal

/-- A float that is not finite has no JSON form; null stands for it.
mirrors the derived serialization of `Literal` -/
def toJson : Literal → Json
  | .integer i => .number (.integer i.toInt)
  | .float (.finite negative x) => .number (.float negative x)
  | .float _ => .null
  | .text s => .text s
  | .boolean b => .boolean b
  | .null => .null

/-- An integer in range stays one, every other number becomes a double. -/
def ofNumber? : Json.Number → Option Literal
  | .integer i =>
    if Int64.minValue.toInt ≤ i ∧ i ≤ Int64.maxValue.toInt then some (.integer (Int64.ofInt i))
    else (Magnitude.ofRatio? i.natAbs 1).map fun x => .float (.finite (i < 0) x)
  | .float negative x => some (.float (.finite negative x))

/-- The value that a JSON value stands for. mirrors `lower_literal` -/
def ofJson? : Json → Except NodeError.Reason Literal
  | .null => .ok .null
  | .boolean b => .ok (.boolean b)
  | .text s => if isQuotable s then .ok (.text s) else .error .unquotableValue
  | .number n =>
    match ofNumber? n with
    | some v => .ok v
    | none => .error (.numberRange n)
  | .array _ => .error .nestedValue
  | .object _ => .error .nestedValue

end Literal

namespace Predicate

mutual

/-- The JSON form of a predicate. mirrors the derived serialization of `PredicateNode` -/
def toJson : Predicate → Json
  | .logical op cs =>
    .object [("type", .text "logical"), ("operator", .text op.keyword),
      ("constraints", .array (allToJson cs))]
  | .comparison op id v =>
    .object [("type", .text "comparison"), ("operator", .text op.keyword),
      ("args", .object [("identifier", .text id), ("value", v.toJson)])]

def allToJson : List Predicate → List Json
  | [] => []
  | p :: ps => p.toJson :: allToJson ps

end

/-- The member `operator` of a node, as a text. mirrors `operator_keyword` -/
def operatorWord (members : List (String × Json)) : Except NodeError.Reason String :=
  match Json.member? "operator" members with
  | some (.text word) => .ok word
  | _ => .error .missingOperator

/-- A comparison from the members of its node. mirrors `lower_comparison` -/
def comparisonOfMembers (members : List (String × Json)) : Except NodeError.Reason Predicate := do
  let word ← operatorWord members
  match ComparisonOperator.ofKeyword? word with
  | none => .error (.unknownComparisonOperator word)
  | some op =>
    match Json.member? "args" members with
    | some (.object args) =>
      match Json.member? "identifier" args with
      | some (.text id) =>
        if isQuotable id then
          match Json.member? "value" args with
          | some v => return .comparison op id (← Literal.ofJson? v)
          | none => .error .missingValue
        else .error .unquotableIdentifier
      | _ => .error .missingIdentifier
    | _ => .error .missingArguments

/-- The operator and the constraints of a logical node from its members.
mirrors `lower_logical`, up to the constraints -/
def logicalOfMembers (members : List (String × Json)) :
    Except NodeError.Reason
      (LogicalOperator × { items : List Json // ("constraints", .array items) ∈ members }) := do
  let word ← operatorWord members
  match LogicalOperator.ofKeyword? word with
  | none => .error (.unknownLogicalOperator word)
  | some op =>
    match h : Json.member? "constraints" members with
    | some (.array items) => .ok (op, ⟨items, Json.mem_of_member? h⟩)
    | _ => .error .missingConstraints

/-- Constraints are smaller than what holds them. -/
theorem sizeOf_lt_of_mem_constraints {members : List (String × Json)} {items : List Json}
    (h : ("constraints", .array items) ∈ members) : sizeOf items < sizeOf members := by
  have := List.sizeOf_lt_of_mem h
  simp at this
  omega

mutual

/-- The predicate that a JSON value stands for. mirrors `PredicateNode.from_json` -/
def ofJson? : Json → Except NodeError Predicate
  | .object members =>
    match Json.member? "type" members with
    | some (.text "logical") =>
      match logicalOfMembers members with
      | .ok (op, ⟨items, h⟩) =>
        have := sizeOf_lt_of_mem_constraints h
        (allOfJson? 0 items).map (.logical op)
      | .error reason => .error ⟨[], reason⟩
    | some (.text "comparison") => (comparisonOfMembers members).mapError (⟨[], ·⟩)
    | some (.text type) => .error ⟨[], .unknownType type⟩
    | some _ => .error ⟨[], .typeNotText⟩
    | none => .error ⟨[], .missingType⟩
  | _ => .error ⟨[], .notObject⟩
termination_by v => sizeOf v

/-- The predicates that constraints stand for, the first one being constraint `i` of its node. -/
def allOfJson? (i : Nat) : List Json → Except NodeError (List Predicate)
  | [] => .ok []
  | v :: vs =>
    match ofJson? v with
    | .ok p => (allOfJson? (i + 1) vs).map (p :: ·)
    | .error e => .error (e.inConstraint i)
termination_by vs => sizeOf vs

end

mutual

/-- The predicate that the JSON value at the end of `way` stands for, or the way to a malformed node
and what is wrong there. mirrors `lower_node` -/
def ofJsonAt? (way : String) : Json → Except (String × NodeError.Reason) Predicate
  | .object members =>
    match Json.member? "type" members with
    | some (.text "logical") =>
      match logicalOfMembers members with
      | .ok (op, ⟨items, h⟩) =>
        have := sizeOf_lt_of_mem_constraints h
        (allOfJsonAt? way 0 items).map (.logical op)
      | .error reason => .error (way, reason)
    | some (.text "comparison") => (comparisonOfMembers members).mapError (way, ·)
    | some (.text type) => .error (way, .unknownType type)
    | some _ => .error (way, .typeNotText)
    | none => .error (way, .missingType)
  | _ => .error (way, .notObject)
termination_by v => sizeOf v

/-- The predicates that constraints of the node at the end of `way` stand for, the first one being
constraint `i`. -/
def allOfJsonAt? (way : String) (i : Nat) :
    List Json → Except (String × NodeError.Reason) (List Predicate)
  | [] => .ok []
  | v :: vs =>
    match ofJsonAt? (NodeError.constraintWay way i) v with
    | .ok p => (allOfJsonAt? way (i + 1) vs).map (p :: ·)
    | .error e => .error e
termination_by vs => sizeOf vs

end

theorem ofJson?_not_object {v : Json} (h : ∀ members, v ≠ .object members) :
    ofJson? v = .error ⟨[], .notObject⟩ := by
  cases v <;> simp_all [ofJson?]

end Predicate
end JoinPlan
