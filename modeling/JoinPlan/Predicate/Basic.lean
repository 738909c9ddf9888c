import JoinPlan.Number.Binary64
import JoinPlan.Predicate.Operator
/-!
# Predicates

A predicate compares fields with values and combines such comparisons. A field is named by an
identifier; a dotted identifier leads over relations to the field.

Results:
* `identifiers_mapIdentifiers`: mapping the identifiers maps the list of them.
-/
namespace JoinPlan

/-- The value that a field is compared with. mirrors `Literal` -/
inductive Literal where
  | integer (value : Int64)
  | float (value : Binary64)
  | text (value : String)
  | boolean (value : Bool)
  | null
  deriving DecidableEq, Repr

/-- A search predicate. mirrors `PredicateNode` -/
inductive Predicate where
  | logical (op : LogicalOperator) (constraints : List Predicate)
  | comparison (op : ComparisonOperator) (identifier : String) (value : Literal)
  deriving Repr

/-- Whether a text can be written between quotes. There are no escapes, so it may hold quotes of
one kind but not of both. mirrors `is_quotable` -/
def isQuotable (s : String) : Bool :=
  !(s.toList.contains '"' && s.toList.contains '\'')

/-- Equality of values; an integer differs from every float.
mirrors the derived equality of `Literal` -/
def Literal.sameValue : Literal → Literal → Bool
  | .float x, .float y => x.sameValue y
  | a, b => a = b

namespace Predicate

mutual

/-- Equality of shape, operators, identifiers and values.
mirrors the derived equality of `PredicateNode` -/
def sameValue : Predicate → Predicate → Bool
  | .logical op cs, .logical op' cs' => op = op' && allSameValue cs cs'
  | .comparison op id v, .comparison op' id' v' => op = op' && id = id' && v.sameValue v'
  | _, _ => false

def allSameValue : List Predicate → List Predicate → Bool
  | [], [] => true
  | p :: ps, q :: qs => p.sameValue q && allSameValue ps qs
  | _, _ => false

end

mutual

/-- The identifiers of the comparisons from left to right.
mirrors `identifiers`, with `collect_identifiers` -/
def identifiers : Predicate → List String
  | .logical _ cs => allIdentifiers cs
  | .comparison _ id _ => [id]

def allIdentifiers : List Predicate → List String
  | [] => []
  | p :: ps => p.identifiers ++ allIdentifiers ps

end

mutual

/-- The predicate with every identifier replaced. mirrors `resolve_predicate`, up to the look-up -/
def mapIdentifiers (f : String → String) : Predicate → Predicate
  | .logical op cs => .logical op (mapAllIdentifiers f cs)
  | .comparison op id v => .comparison op (f id) v

def mapAllIdentifiers (f : String → String) : List Predicate → List Predicate
  | [] => []
  | p :: ps => p.mapIdentifiers f :: mapAllIdentifiers f ps

end

mutual

theorem identifiers_mapIdentifiers (f : String → String) :
    ∀ p : Predicate, (p.mapIdentifiers f).identifiers = p.identifiers.map f
  | .logical op cs => by
    simp only [mapIdentifiers, identifiers, allIdentifiers_mapAllIdentifiers f cs]
  | .comparison op id v => rfl

theorem allIdentifiers_mapAllIdentifiers (f : String → String) :
    ∀ ps : List Predicate, allIdentifiers (mapAllIdentifiers f ps) = (allIdentifiers ps).map f
  | [] => rfl
  | p :: ps => by
    simp only [mapAllIdentifiers, allIdentifiers, identifiers_mapIdentifiers f p,
      allIdentifiers_mapAllIdentifiers f ps, List.map_append]

end

end Predicate
end JoinPlan
