import JoinPlan.Json.Basic
import JoinPlan.Json.Text
import JoinPlan.Number.Notation
import JoinPlan.Number.Numeral
/-!
# Writing JSON

A value is written on one line without spaces, or with one item or member to a line and two spaces
for each level. Empty arrays and objects stay on their line.
-/
namespace JoinPlan.Json

/-- Doubles are written plainly from `10 ^ -5` to below `10 ^ 16`, and otherwise with a signed
exponent. -/
def floatForm : Notation where
  plainFrom := -5
  plainThrough := 15
  exponentPlus := true
  tie := .toEven

def Number.write : Number → List Char
  | .integer i => (Numeral.ofInt i).text
  | .float negative x => floatForm.write (.finite negative x)

mutual

/-- A value on one line. -/
def compact : Json → List Char
  | .null => "null".toList
  | .boolean true => "true".toList
  | .boolean false => "false".toList
  | .number n => n.write
  | .text s => writeText s
  | .array items => '[' :: (compactItems items ++ [']'])
  | .object members => '{' :: (compactMembers members ++ ['}'])

def compactItems : List Json → List Char
  | [] => []
  | [v] => v.compact
  | v :: w :: vs => v.compact ++ ',' :: compactItems (w :: vs)

def compactMembers : List (String × Json) → List Char
  | [] => []
  | [(key, v)] => writeText key ++ ':' :: v.compact
  | (key, v) :: m :: ms => writeText key ++ ':' :: (v.compact ++ ',' :: compactMembers (m :: ms))

end

/-- A new line at a level. -/
def lineBreak (level : Nat) : List Char :=
  '\n' :: List.replicate (2 * level) ' '

mutual

/-- A value over several lines; its first line is already indented, the others are at `level`. -/
def pretty (level : Nat) : Json → List Char
  | .array (v :: vs) => '[' :: (prettyItems (level + 1) (v :: vs) ++ lineBreak level ++ [']'])
  | .object (m :: ms) => '{' :: (prettyMembers (level + 1) (m :: ms) ++ lineBreak level ++ ['}'])
  | v => v.compact

def prettyItems (level : Nat) : List Json → List Char
  | [] => []
  | [v] => lineBreak level ++ v.pretty level
  | v :: w :: vs => lineBreak level ++ v.pretty level ++ ',' :: prettyItems level (w :: vs)

def prettyMembers (level : Nat) : List (String × Json) → List Char
  | [] => []
  | [(key, v)] => lineBreak level ++ writeText key ++ ':' :: ' ' :: v.pretty level
  | (key, v) :: m :: ms =>
    lineBreak level ++ writeText key ++ ':' :: ' ' ::
      (v.pretty level ++ ',' :: prettyMembers level (m :: ms))

end

/-- The value's text on one line. -/
def compactText (v : Json) : String := String.ofList v.compact

/-- The value's text over several lines. -/
def prettyText (v : Json) : String := String.ofList (v.pretty 0)

end JoinPlan.Json
