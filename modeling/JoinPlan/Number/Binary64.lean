/-!
# Double precision numbers

A finite magnitude is `significand * 2 ^ exponent` in its one normal form: the significand fits 53
bits, and it uses all of them unless the exponent is the least one. So equal values have equal
representations, and every operation is exact arithmetic on naturals followed by one rounding.

Results:
* `Magnitude.of?_self`: the normal form of a magnitude is the magnitude.
* `Magnitude.ext`: a magnitude is determined by its significand and exponent.
-/
namespace JoinPlan

/-- A finite non-negative double, `significand * 2 ^ exponent`. -/
structure Magnitude where
  significand : Nat
  exponent : Int
  fits : significand < Nat.pow 2 53
  inRange : -1074 ≤ exponent ∧ exponent ≤ 971
  normal : exponent = -1074 ∨ Nat.pow 2 52 ≤ significand
  deriving DecidableEq, Repr

namespace Magnitude

/-- The magnitude with this significand and exponent, if they are a normal form. -/
def of? (m : Nat) (q : Int) : Option Magnitude :=
  if h : m < Nat.pow 2 53 ∧ (-1074 ≤ q ∧ q ≤ 971) ∧ (q = -1074 ∨ Nat.pow 2 52 ≤ m) then
    some ⟨m, q, h.1, h.2.1, h.2.2⟩
  else none

def zero : Magnitude := ⟨0, -1074, by decide, by decide, .inl rfl⟩

/-- The numerator of the exact value over `denominator`. -/
def numerator (x : Magnitude) : Nat := x.significand * Nat.pow 2 x.exponent.toNat

def denominator (x : Magnitude) : Nat := Nat.pow 2 (-x.exponent).toNat

theorem ext {x y : Magnitude} (hm : x.significand = y.significand) (hq : x.exponent = y.exponent) :
    x = y := by
  cases x; cases y; simp_all

theorem of?_self (x : Magnitude) : of? x.significand x.exponent = some x := by
  rw [of?, dif_pos ⟨x.fits, x.inRange, x.normal⟩]

/-! ## Rounding -/

/-- The `e` with `2 ^ e ≤ num / den < 2 ^ (e + 1)`, for positive `num` and `den`. -/
def binaryOrder (num den : Nat) : Int :=
  let e : Int := (num.log2 : Int) - den.log2
  if den * Nat.pow 2 e.toNat ≤ num * Nat.pow 2 (-e).toNat then e else e - 1

/-- `num / den` rounded to the nearest natural, a half to the even neighbour. -/
def roundHalfEven (num den : Nat) : Nat :=
  let whole := num / den
  let rest := 2 * (num % den)
  if rest < den ∨ (rest = den ∧ whole % 2 = 0) then whole else whole + 1

/-- The double nearest to `num / den`, a tie going to the even significand; none if that lies
beyond the largest double. -/
def ofRatio? (num den : Nat) : Option Magnitude :=
  if num = 0 then some zero else
    let q := max (-1074) (binaryOrder num den - 52)
    let m := roundHalfEven (num * Nat.pow 2 (-q).toNat) (den * Nat.pow 2 q.toNat)
    if m = Nat.pow 2 53 then of? (Nat.pow 2 52) (q + 1) else of? m q

def mul? (x y : Magnitude) : Option Magnitude :=
  ofRatio? (x.numerator * y.numerator) (x.denominator * y.denominator)

/-- The rounded quotient, for a divisor other than zero. -/
def div? (x y : Magnitude) : Option Magnitude :=
  ofRatio? (x.numerator * y.denominator) (x.denominator * y.numerator)

/-- The double nearest to `coefficient * 10 ^ exponent`; none if that lies beyond the largest
double. As `10 ^ n` is at least `2 ^ (3 * n)`, a value that is far out of range on either side is
recognised before the power of ten is computed. -/
def ofDecimal? (coefficient : Nat) (exponent : Int) : Option Magnitude :=
  if coefficient = 0 then some zero
  else if 0 ≤ exponent then
    if 1024 ≤ coefficient.log2 + 3 * exponent then none
    else ofRatio? (coefficient * Nat.pow 10 exponent.toNat) 1
  else if coefficient.log2 + 1076 ≤ 3 * -exponent then some zero
  else ofRatio? coefficient (Nat.pow 10 (-exponent).toNat)

end Magnitude

/-- A double: a signed magnitude, an infinity, or not a number. -/
inductive Binary64 where
  | finite (negative : Bool) (magnitude : Magnitude)
  | infinite (negative : Bool)
  | nan
  deriving DecidableEq, Repr

namespace Binary64

def isFinite : Binary64 → Bool
  | .finite _ _ => true
  | _ => false

/-- Equality of values: zero has one value whatever its sign, and what is not a number equals
nothing. -/
def sameValue : Binary64 → Binary64 → Bool
  | .finite n x, .finite n' x' => x = x' && (n = n' || x.significand = 0)
  | .infinite n, .infinite n' => n = n'
  | _, _ => false

/-- The double nearest to `± coefficient * 10 ^ exponent`, infinite beyond the largest double. -/
def ofDecimal (negative : Bool) (coefficient : Nat) (exponent : Int) : Binary64 :=
  match Magnitude.ofDecimal? coefficient exponent with
  | some x => .finite negative x
  | none => .infinite negative

end Binary64
end JoinPlan
