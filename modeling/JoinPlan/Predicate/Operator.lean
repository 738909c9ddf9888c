/-!
# Operators

Eight keywords open the nodes of a predicate: two combine constraints, six compare a field with a
value.

Results:
* `Operator.ofKeyword?_keyword`, `Operator.ofKeyword?_eq_some_iff`: a keyword stands for exactly one
  operator.
-/
namespace JoinPlan

/-- How a logical node combines its constraints. mirrors `LogicalOperator` -/
inductive LogicalOperator where
  /-- every constraint holds -/
  | matchAll
  /-- some constraint holds -/
  | matchAny
  deriving DecidableEq, Repr

/-- How a comparison relates a field to a value. mirrors `ComparisonOperator` -/
inductive ComparisonOperator where
  | eq | neq | gt | geq | lt | leq
  deriving DecidableEq, Repr

/-- The operator of a node of either kind. -/
inductive Operator where
  | logical (op : LogicalOperator)
  | comparison (op : ComparisonOperator)
  deriving DecidableEq, Repr

/-- mirrors `LogicalOperator.keyword` -/
def LogicalOperator.keyword : LogicalOperator → String
  | .matchAll => "match_all"
  | .matchAny => "match_any"

/-- mirrors `ComparisonOperator.keyword` -/
def ComparisonOperator.keyword : ComparisonOperator → String
  | .eq => "eq"
  | .neq => "neq"
  | .gt => "gt"
  | .geq => "geq"
  | .lt => "lt"
  | .leq => "leq"

/-- mirrors `LogicalOperator.from_keyword` -/
def LogicalOperator.ofKeyword? : String → Option LogicalOperator
  | "match_all" => some .matchAll
  | "match_any" => some .matchAny
  | _ => none

/-- mirrors `ComparisonOperator.from_keyword` -/
def ComparisonOperator.ofKeyword? : String → Option ComparisonOperator
  | "eq" => some .eq
  | "neq" => some .neq
  | "gt" => some .gt
  | "geq" => some .geq
  | "lt" => some .lt
  | "leq" => some .leq
  | _ => none

namespace Operator

def keyword : Operator → String
  | .logical op => op.keyword
  | .comparison op => op.keyword

/-- mirrors the two look-ups in `parse_predicate_node` -/
def ofKeyword? (word : String) : Option Operator :=
  match LogicalOperator.ofKeyword? word with
  | some op => some (.logical op)
  | none => (ComparisonOperator.ofKeyword? word).map .comparison

end Operator

theorem LogicalOperator.ofKeyword?_keyword (op : LogicalOperator) :
    ofKeyword? op.keyword = some op := by
  cases op <;> rfl

theorem ComparisonOperator.ofKeyword?_keyword (op : ComparisonOperator) :
    ofKeyword? op.keyword = some op := by
  cases op <;> rfl

theorem LogicalOperator.ofKeyword?_eq_some_iff {word : String} {op : LogicalOperator} :
    ofKeyword? word = some op ↔ word = op.keyword := by
  constructor
  · intro h
    unfold ofKeyword? at h
    split at h <;> simp_all [keyword] <;> subst h <;> rfl
  · rintro rfl
    exact ofKeyword?_keyword op

theorem ComparisonOperator.ofKeyword?_eq_some_iff {word : String} {op : ComparisonOperator} :
    ofKeyword? word = some op ↔ word = op.keyword := by
  constructor
  · intro h
    unfold ofKeyword? at h
    split at h <;> simp_all <;> subst h <;> rfl
  · rintro rfl
    exact ofKeyword?_keyword op

theorem Operator.ofKeyword?_keyword (op : Operator) : ofKeyword? op.keyword = some op := by
  rcases op with op | op <;> cases op <;> rfl

theorem Operator.ofKeyword?_eq_some_iff {word : String} {op : Operator} :
    ofKeyword? word = some op ↔ word = op.keyword := by
  constructor
  · intro h
    unfold ofKeyword? at h
    split at h
    · rename_i o e
      cases Option.some.inj h
      exact LogicalOperator.ofKeyword?_eq_some_iff.1 e
    · obtain ⟨o, e, rfl⟩ := Option.map_eq_some_iff.1 h
      exact ComparisonOperator.ofKeyword?_eq_some_iff.1 e
  · rintro rfl
    exact ofKeyword?_keyword op

end JoinPlan
