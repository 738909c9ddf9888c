import JoinPlan.Number.Shortest
/-!
# Writing doubles

A double is written with the fewest digits that identify it. What remains open is how the digits
are laid out, and each text format that writes doubles decides it with one `Notation`.
-/
namespace JoinPlan

/-- How a text format lays out doubles. The *order* of a number is the power of ten of its leading
digit. -/
structure Notation where
  /-- the least order that is written without an exponent -/
  plainFrom : Int
  /-- the greatest order that is written without an exponent -/
  plainThrough : Int
  /-- whether a positive exponent has a plus sign -/
  exponentPlus : Bool
  tie : Tie
  deriving DecidableEq, Repr

namespace Notation

/-- Digits with a point in them, the first digit being of the given order; there is always a digit
on either side of the point. -/
def plain (digits : List Char) (order : Int) : List Char :=
  if order < 0 then
    '0' :: '.' :: (List.replicate (-order - 1).toNat '0' ++ digits)
  else
    let whole := order.toNat + 1
    let fraction := digits.drop whole
    digits.take whole ++ List.replicate (whole - digits.length) '0' ++
      '.' :: (if fraction.isEmpty then ['0'] else fraction)

/-- One digit, the others behind a point, and the order as the exponent. -/
def scientific (n : Notation) (digits : List Char) (order : Int) : List Char :=
  let fraction := digits.drop 1
  let sign := if order < 0 then ['-'] else if n.exponentPlus then ['+'] else []
  digits.take 1 ++ (if fraction.isEmpty then [] else '.' :: fraction) ++
    'e' :: (sign ++ Nat.toDigits 10 order.natAbs)

def layout (n : Notation) (d : Decimal) : List Char :=
  let digits := Nat.toDigits 10 d.coefficient
  let order := d.exponent + digits.length - 1
  if n.plainFrom ≤ order ∧ order ≤ n.plainThrough then plain digits order
  else n.scientific digits order

/-- The text of a magnitude. -/
def writeMagnitude (n : Notation) (x : Magnitude) : List Char :=
  if x.significand = 0 then ['0', '.', '0'] else n.layout (x.shortest n.tie)

def sign (negative : Bool) : List Char := if negative then ['-'] else []

/-- The text of a double; the infinities and what is not a number have names. -/
def write (n : Notation) : Binary64 → List Char
  | .finite negative x => sign negative ++ n.writeMagnitude x
  | .infinite negative => sign negative ++ ['i', 'n', 'f']
  | .nan => ['N', 'a', 'N']

end Notation
end JoinPlan
