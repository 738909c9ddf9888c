import JoinPlan.Json.Number
import JoinPlan.Json.Text
import JoinPlan.Text.Space
/-!
# Reading JSON

The reader accepts the JSON grammar, with arrays and objects nested up to 127 levels deep. Why a
text is refused is not reported.

Results:
* `read?_zero_array`: at the limit of nesting no array is read.
-/
namespace JoinPlan.Json

/-- The depth to which arrays and objects may be nested. -/
def maxDepth : Nat := 127

/-- The rest of a text behind `c` and the spacing in front of it. -/
def expect? (c : Char) (s : List Char) : Option (List Char) :=
  match Text.skipSpacing s with
  | d :: rest => if d = c then some rest else none
  | [] => none

/-- The items of a list up to its closing character, where `item?` reads one: there is a comma
between two of them. A round has to read something. -/
def readItems? {α : Type} (item? : List Char → Option (α × List Char)) (close : Char)
    (s : List Char) : Option (List α × List Char) := do
  let (a, rest) ← item? s
  match expect? close rest with
  | some rest' => return ([a], rest')
  | none =>
    let next ← expect? ',' rest
    if next.length < s.length then
      let (as, rest') ← readItems? item? close next
      return (a :: as, rest')
    else none
termination_by s.length

/-- A list in its brackets, behind the opening one. It may be empty. -/
def readList? {α : Type} (item? : List Char → Option (α × List Char)) (close : Char)
    (s : List Char) : Option (List α × List Char) :=
  match expect? close s with
  | some rest => some ([], rest)
  | none => readItems? item? close s

/-- A member of an object, where `value?` reads its value. -/
def readMember? (value? : List Char → Option (Json × List Char)) (s : List Char) :
    Option ((String × Json) × List Char) := do
  let (key, rest) ← readText? (← expect? '"' s)
  let (v, rest') ← value? (← expect? ':' rest)
  return ((String.ofList key, v), rest')

/-- A value that holds no other. -/
def readScalar? : List Char → Option (Json × List Char)
  | '"' :: s => (readText? s).map fun (t, rest) => (.text (String.ofList t), rest)
  | 'n' :: 'u' :: 'l' :: 'l' :: rest => some (.null, rest)
  | 't' :: 'r' :: 'u' :: 'e' :: rest => some (.boolean true, rest)
  | 'f' :: 'a' :: 'l' :: 's' :: 'e' :: rest => some (.boolean false, rest)
  | s => (readNumber? s).map fun (n, rest) => (.number n, rest)

/-- The value in front of a text, with arrays and objects nested up to `depth` levels. -/
def read? : Nat → List Char → Option (Json × List Char)
  | 0, s => readScalar? (Text.skipSpacing s)
  | depth + 1, s =>
    match Text.skipSpacing s with
    | '[' :: rest => (readList? (read? depth) ']' rest).map fun (vs, rest') => (.array vs, rest')
    | '{' :: rest =>
      (readList? (readMember? (read? depth)) '}' rest).map fun (ms, rest') => (.object ms, rest')
    | t => readScalar? t

/-- The value that a text consists of. -/
def parse? (s : List Char) : Option Json :=
  match read? maxDepth s with
  | some (v, rest) => if (Text.skipSpacing rest).isEmpty then some v else none
  | none => none

theorem read?_zero_array (s : List Char) : read? 0 ('[' :: s) = none := by
  simp [read?, Text.skipSpacing, Text.isSpacing, readScalar?, readNumber?, Numeral.scan?,
    Numeral.takeSign, Numeral.takeDigits, Numeral.takeFraction]

end JoinPlan.Json
