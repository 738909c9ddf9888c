import JoinPlan.Number.Notation
import JoinPlan.Number.Numeral
import JoinPlan.Predicate.Basic
/-!
# The text form of a predicate

A logical node is its keyword and its constraints in braces, `match_all: { A, B }`; a comparison is
its keyword and two arguments in brackets, `eq: ["id", V]`. Texts stand between double quotes, or
between single quotes if they hold a double quote; there are no escapes.

Results:
* `writeQuoted_eq`: which quote is taken.
-/
namespace JoinPlan

/-- Floats are written plainly from `10 ^ -4` to below `10 ^ 16`, and otherwise with an exponent
that has no plus sign. -/
def Predicate.floatForm : Notation where
  plainFrom := -4
  plainThrough := 15
  exponentPlus := false
  tie := .upward

/-- A text between quotes that it does not hold itself, if there are such. mirrors `write_quoted` -/
def writeQuoted (s : String) : List Char :=
  let quote := if s.toList.contains '"' then '\'' else '"'
  quote :: (s.toList ++ [quote])

/-- The text of a value. mirrors `fmt` of `Literal` -/
def Literal.write : Literal → List Char
  | .integer i => (Numeral.ofInt i.toInt).text
  | .float x => Predicate.floatForm.write x
  | .text s => writeQuoted s
  | .boolean true => "true".toList
  | .boolean false => "false".toList
  | .null => "null".toList

namespace Predicate

mutual

/-- The characters of a predicate's text. mirrors `fmt` of `PredicateNode` -/
def write : Predicate → List Char
  | .logical op cs => op.keyword.toList ++ ": \x7b ".toList ++ writeAll cs ++ " \x7d".toList
  | .comparison op id v =>
    op.keyword.toList ++ ": [".toList ++ writeQuoted id ++ ", ".toList ++ v.write ++ "]".toList

/-- The constraints with a comma and a space between them. -/
def writeAll : List Predicate → List Char
  | [] => []
  | [p] => p.write
  | p :: q :: ps => p.write ++ ", ".toList ++ writeAll (q :: ps)

end

/-- The text form of a predicate. -/
def text (p : Predicate) : String :=
  String.ofList p.write

end Predicate

theorem writeQuoted_eq (s : String) :
    writeQuoted s = '"' :: (s.toList ++ ['"']) ∧ '"' ∉ s.toList ∨
      writeQuoted s = '\'' :: (s.toList ++ ['\'']) ∧ '"' ∈ s.toList := by
  by_cases h : '"' ∈ s.toList
  · exact .inr ⟨by simp [writeQuoted, h], h⟩
  · exact .inl ⟨by simp [writeQuoted, h], h⟩

end JoinPlan
