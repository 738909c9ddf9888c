import JoinPlan.Number.Binary64
/-!
# The fewest digits that identify a double

Many decimals read back to one double. `Magnitude.shortest` gives one with as few digits as
possible, and of those the one nearest to the value. On the grid of decimals with a given number
of digits only the two neighbours of the value need to be tried.

Results:
* `pick_readsBack`: what is picked from a grid reads back to the value it was picked for.
-/
namespace JoinPlan

/-- The number `coefficient * 10 ^ exponent`. -/
structure Decimal where
  coefficient : Nat
  exponent : Int
  deriving DecidableEq, Repr

/-- Which of two equally near decimals is taken. -/
inductive Tie where
  | toEven
  | upward
  deriving DecidableEq, Repr

namespace Decimal

/-- The double nearest to a decimal, none beyond the largest double. -/
def toMagnitude? (d : Decimal) : Option Magnitude :=
  Magnitude.ofDecimal? d.coefficient d.exponent

/-- The same number without zeros at the end of its coefficient. -/
def strip (d : Decimal) : Decimal :=
  if h : d.coefficient ≠ 0 ∧ d.coefficient % 10 = 0 then
    strip ⟨d.coefficient / 10, d.exponent + 1⟩
  else d
termination_by d.coefficient
decreasing_by omega

end Decimal

namespace Magnitude

/-- The `k` with `10 ^ k ≤ num / den < 10 ^ (k + 1)`, for positive `num` and `den`. The binary order
times `log10 2` is at most one off. -/
def decimalOrder (num den : Nat) : Int :=
  let guess := binaryOrder num den * 30103 / 100000
  let atLeast (k : Int) : Bool := den * Nat.pow 10 k.toNat ≤ num * Nat.pow 10 (-k).toNat
  if atLeast (guess + 1) then guess + 1 else if atLeast guess then guess else guess - 1

/-- Of the decimals `below` and `below + 1` on the grid `10 ^ exponent`, the one that reads back to
`x`; if both do, the nearer. -/
def pick (x : Magnitude) (tie : Tie) (exponent : Int) : Option Decimal :=
  let num := x.numerator * Nat.pow 10 (-exponent).toNat
  let den := x.denominator * Nat.pow 10 exponent.toNat
  let below := num / den
  let lower : Decimal := ⟨below, exponent⟩
  let upper : Decimal := ⟨below + 1, exponent⟩
  let readsBack (d : Decimal) : Bool := d.toMagnitude? = some x
  if readsBack lower then
    if readsBack upper then
      match compare (2 * num) ((2 * below + 1) * den), tie with
      | .lt, _ => some lower
      | .gt, _ => some upper
      | .eq, .toEven => some (if below % 2 = 0 then lower else upper)
      | .eq, .upward => some upper
    else some lower
  else if readsBack upper then some upper else none

/-- All digits of the exact value. -/
def exactDecimal (x : Magnitude) : Decimal :=
  ⟨x.significand * Nat.pow 2 x.exponent.toNat * Nat.pow 5 (-x.exponent).toNat, min x.exponent 0⟩

/-- The decimal with the fewest digits that reads back to `x`, of several the nearest one. Seventeen
digits are enough to tell doubles apart; the search over them falls back on the exact value. -/
def shortest (x : Magnitude) (tie : Tie) : Decimal :=
  let order := decimalOrder x.numerator x.denominator
  match (List.range 17).findSome? fun n : Nat => pick x tie (order - n) with
  | some d => d.strip
  | none => x.exactDecimal.strip

theorem pick_readsBack {x : Magnitude} {tie : Tie} {exponent : Int} {d : Decimal}
    (h : pick x tie exponent = some d) : d.toMagnitude? = some x := by
  simp only [pick] at h
  split at h
  · rename_i hl
    split at h
    · rename_i hu
      simp only [decide_eq_true_eq] at hl hu
      split at h
      · simp_all
      · simp_all
      · split at h <;> simp_all
      · simp_all
    · simp_all
  · split at h <;> simp_all

end Magnitude
end JoinPlan
