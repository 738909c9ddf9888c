import JoinPlan.Json.Basic
import JoinPlan.Number.Numeral
/-!
# Reading numbers in JSON

An integer that fits 64 bits is kept as it is. Any other number becomes a double, and not always the
nearest one: its first digits, as many as fit an unsigned 64-bit word, are rounded to a double, and
that is multiplied or divided by a rounded power of ten.
-/
namespace JoinPlan.Json

/-- Digits that are taken while their number fits an unsigned 64-bit word. -/
structure Significand where
  value : Nat
  /-- whether a digit was met that no longer fits -/
  full : Bool
  deriving DecidableEq, Repr

namespace Significand

/-- Appends a digit if it fits; after one that does not, no digit is taken. -/
def push (s : Significand) (digit : Char) : Significand :=
  let value := 10 * s.value + (digit.toNat - '0'.toNat)
  if s.full then s else if value < Nat.pow 2 64 then ⟨value, false⟩ else ⟨s.value, true⟩

/-- Appends digits, and counts those that were taken. -/
def pushAll (s : Significand) : List Char → Significand × Nat
  | [] => (s, 0)
  | d :: ds =>
    let next := s.push d
    let (last, taken) := next.pushAll ds
    (last, if next.full then taken else taken + 1)

end Significand

/-- The double nearest to `10 ^ n`. -/
def powerOfTen? (n : Nat) : Option Magnitude := Magnitude.ofDecimal? 1 n

/-- `x` divided `n` times by the double nearest to `10 ^ 308`; zero stays zero. -/
def divideByGreatest : Nat → Magnitude → Option Magnitude
  | 0, x => some x
  | n + 1, x =>
    if x.significand = 0 then some x else do
      divideByGreatest n (← x.div? (← powerOfTen? 308))

/-- `x * 10 ^ exponent` by rounded steps: one multiplication, or divisions by at most `10 ^ 308`
each. None if the result is out of range. -/
def scale? (x : Magnitude) (exponent : Int) : Option Magnitude :=
  if x.significand = 0 then some x
  else if 308 < exponent then none
  else if 0 ≤ exponent then do x.mul? (← powerOfTen? exponent.toNat)
  else
    let places := (-exponent).toNat
    let whole := (places - 1) / 308
    do
      let y ← divideByGreatest whole x
      y.div? (← powerOfTen? (places - 308 * whole))

namespace Number

/-- The integer with a sign, if it fits 64 bits. The negative ones fit a signed word; there is no
negative zero among the integers. -/
def integer? (negative : Bool) (n : Nat) : Option Number :=
  if negative then
    if 0 < n ∧ n ≤ Nat.pow 2 63 then some (.integer (-n)) else none
  else if n < Nat.pow 2 64 then some (.integer n) else none

/-- The number that a numeral stands for, none if it is out of range. -/
def ofNumeral? (n : Numeral) : Option Number :=
  let (whole, taken) := Significand.pushAll ⟨0, false⟩ n.whole
  let dropped := n.whole.length - taken
  let (digits, places) := Significand.pushAll ⟨whole.value, false⟩ (n.fraction.getD [])
  let asFloat := do
    let x ← Magnitude.ofRatio? digits.value 1
    return Number.float n.isNegative (← scale? x (dropped - places + n.scale))
  if n.isIntegral ∧ dropped = 0 then
    match integer? n.isNegative whole.value with
    | some i => some i
    | none => asFloat
  else asFloat

end Number

/-- Whether JSON admits a numeral: no plus sign in front, digits in front of the point, and no zero
in front of further digits. -/
def admits (n : Numeral) : Bool :=
  n.sign ≠ some '+' && n.whole ≠ [] && (n.whole.head? ≠ some '0' || n.whole.length = 1)

/-- The number in front of a text, and the rest. -/
def readNumber? (s : List Char) : Option (Number × List Char) := do
  let (n, rest) ← Numeral.scan? s
  if admits n then return (← Number.ofNumeral? n, rest) else none

end JoinPlan.Json
