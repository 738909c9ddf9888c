import JoinPlan.Number.Numeral
/-!
# Numbers as whole texts

A text may be a number as a whole, an integer of 64 bits or a double. Digits with a sign or none are
an integer, if it is in range. The texts of doubles are more than the numerals: a point needs no
digits behind it if there are some in front, and infinity and what is not a number have names, in
upper or lower case.
-/
namespace JoinPlan.Numeral

/-- The integer that a text stands for. mirrors `i64.from_str` -/
def readInt64? (s : List Char) : Option Int64 :=
  let (sign, digits) := takeSign s
  let i : Int := if sign = some '-' then -(digitsValue digits : Int) else digitsValue digits
  if digits = [] ∨ digits.any fun c => !c.isDigit then none
  else if Int64.minValue.toInt ≤ i ∧ i ≤ Int64.maxValue.toInt then some (Int64.ofInt i)
  else none

/-- The point in front of a text and the digits behind it, of which there may be none. -/
def takePoint : List Char → List Char × List Char
  | '.' :: s => takeDigits s
  | s => ([], s)

/-- The double that a text stands for. mirrors `f64.from_str` -/
def readBinary64? (s : List Char) : Option Binary64 :=
  let (sign, body) := takeSign s
  let name := body.map Char.toLower
  if name = "nan".toList then some .nan
  else if name = "inf".toList ∨ name = "infinity".toList then some (.infinite (sign = some '-'))
  else
    let (whole, afterWhole) := takeDigits body
    let (fraction, afterFraction) := takePoint afterWhole
    let (exponent, rest) := takeExponent afterFraction
    if (whole = [] ∧ fraction = []) ∨ rest ≠ [] then none
    else some (toBinary64 ⟨sign, whole, some fraction, exponent⟩)

end JoinPlan.Numeral
