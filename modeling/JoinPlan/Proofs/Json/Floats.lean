import Mathlib.Data.Nat.Digits.Defs
import JoinPlan.Proofs.Json.Scaling
import JoinPlan.Proofs.Number.Digits
/-!
# Reading written doubles

A double is written with at most seventeen digits, so all of them are read. What comes back is a
double of the same sign that is at most five steps away, and it is the double itself if its digits
without the point make a double and at most twenty-two places are left.

Results:
* `Numeral.coefficient`, `Numeral.power`: the digits of a numeral and the power of ten behind them.
* `Notation.layoutNumeral_spec`: at most seventeen digits are written, and zeros at their end are in
  front of the point.
* `Magnitude.coefficient_shortest_le`: what is written close to the greatest double.
* `Number.exists_reread?_float`: what comes back for a double.
-/
namespace JoinPlan

namespace Numeral

/-- All digits as one number, without the point. -/
def coefficient (n : Numeral) : ℕ := digitsValue (n.whole ++ n.fraction.getD [])

/-- The power of ten that all digits count. -/
def power (n : Numeral) : ℤ := n.scale - (n.fraction.getD []).length

theorem absValue_eq (n : Numeral) : n.absValue = n.coefficient * 10 ^ n.power := rfl

end Numeral

/-! ## Layouts -/

namespace Notation
open Numeral

variable {sign : Option Char} {digits : List Char} {order : ℤ}

theorem coefficient_scientificNumeral (n : Notation) (sign : Option Char) (digits : List Char)
    (order : ℤ) : (n.scientificNumeral sign digits order).coefficient = digitsValue digits := by
  have hwhole : (n.scientificNumeral sign digits order).whole = digits.take 1 := rfl
  rw [coefficient, fraction_scientificNumeral, hwhole, List.take_append_drop]

theorem power_scientificNumeral (n : Notation) (sign : Option Char) (hd : digits ≠ [])
    (order : ℤ) : (n.scientificNumeral sign digits order).power = order + 1 - digits.length := by
  have hlen := List.length_pos_iff.2 hd
  rw [power, scale_scientificNumeral, fraction_scientificNumeral, List.length_drop]
  omega

theorem power_plainNumeral (sign : Option Char) (digits : List Char) (order : ℤ) :
    (plainNumeral sign digits order).power ≤ 0 := by
  have hscale : (plainNumeral sign digits order).scale = 0 := by
    unfold plainNumeral
    split <;> rfl
  rw [power, hscale]
  omega

/-- A number without an exponent may have zeros at its end, but only in front of the point. -/
theorem coefficient_plainNumeral_lt (hd : ∀ c ∈ digits, c.isDigit = true)
    (hlen : digits.length ≤ 17) (ho : order ≤ 15) :
    (plainNumeral sign digits order).coefficient < 10 ^ 17 := by
  have hpow : ∀ {k : ℕ}, k ≤ 17 → 10 ^ k ≤ 10 ^ 17 := fun h => Nat.pow_le_pow_right (by decide) h
  have hdigits := (digitsValue_lt hd).trans_le (hpow hlen)
  have hzero : digitsValue ['0'] = 0 := rfl
  rw [coefficient]
  unfold plainNumeral
  by_cases hsign : order < 0
  · rw [if_pos hsign, Option.getD_some, digitsValue_append, digitsValue_append, digitsValue_zeros,
      hzero]
    omega
  · rw [if_neg hsign, Option.getD_some]
    simp only [List.isEmpty_iff, List.drop_eq_nil_iff]
    by_cases hshort : digits.length ≤ order.toNat + 1
    · rw [if_pos hshort, List.take_of_length_le hshort]
      refine (digitsValue_lt ?_).trans_le (hpow ?_)
      · intro c hc
        simp only [List.mem_append, List.mem_replicate, List.mem_singleton] at hc
        rcases hc with (hc | ⟨-, rfl⟩) | rfl
        · exact hd c hc
        · decide
        · decide
      · simp only [List.length_append, List.length_replicate, List.length_singleton]
        omega
    · rw [if_neg hshort, show order.toNat + 1 - digits.length = 0 by omega, List.replicate_zero,
        List.append_nil, List.take_append_drop]
      exact hdigits

/-- All digits and their power of ten, for a decimal that is written. -/
theorem layoutNumeral_spec (n : Notation) (hn : n.plainThrough ≤ 15) (sign : Option Char)
    {d : Decimal} (hd : d.coefficient < 10 ^ 17) :
    (n.layoutNumeral sign d).coefficient < 10 ^ 17 ∧
      ((n.layoutNumeral sign d).power ≤ 0 ∨
        (n.layoutNumeral sign d).coefficient = d.coefficient ∧
          (n.layoutNumeral sign d).power = d.exponent) := by
  have hlen := Nat.toDigits_length 10 d.coefficient 17 (by decide) hd
  have hdigits := isDigits_toDigits d.coefficient
  have hvalue := digitsValue_toDigits d.coefficient
  rw [layoutNumeral]
  generalize Nat.toDigits 10 d.coefficient = digits at *
  split
  · rename_i horder
    exact ⟨coefficient_plainNumeral_lt hdigits.2 hlen (horder.2.trans hn),
      .inl (power_plainNumeral _ _ _)⟩
  · rw [coefficient_scientificNumeral, hvalue, power_scientificNumeral n sign hdigits.1]
    exact ⟨hd, .inr ⟨rfl, by omega⟩⟩

theorem numeral_eq {n : Notation} {tie : Tie} (hn : n.tie = tie) {x : Magnitude}
    (hx : x.significand ≠ 0) (negative : Bool) : n.numeral negative x =
      n.layoutNumeral (if negative then some '-' else none) (x.shortest tie) := by
  rw [← hn]
  exact if_neg hx

end Notation

/-! ## The greatest double -/

namespace Magnitude

/-- The greatest double. -/
def greatest : Magnitude := ⟨2 ^ 53 - 1, 971, by decide, by decide, by decide⟩

theorem shortest_greatest : greatest.shortest .toEven = ⟨17976931348623157, 292⟩ :=
  shortest_eq (by decide +kernel) (by decide)

/-- Of the two decimals with that exponent which are closest to the bound of the doubles, the upper
one is never the shortest decimal, as both are rounded to the greatest double. -/
theorem coefficient_shortest_le {x : Magnitude} (h : (x.shortest .toEven).exponent = 292) :
    (x.shortest .toEven).coefficient ≤ 17976931348623157 := by
  have hx := x.shortest_nearest .toEven
  rw [Decimal.value, h] at hx
  by_contra hcon
  have hlast : (x.shortest .toEven).coefficient = 17976931348623158 := by
    have hlt := Json.lt_of_mul_ten_pow_lt (n := 292) hx.below
    have hbound : (2 ^ 54 - 1) * 2 ^ 970 < 17976931348623159 * 10 ^ 292 := by
      rw [pow_mul 2 97 10, pow_add 10 200 92]
      norm_num
    have := Nat.lt_of_mul_lt_mul_right (hlt.trans hbound)
    omega
  have hgreatest : ofDecimal? 17976931348623158 292 = some greatest := by decide +kernel
  rw [hlast] at hx
  rw [hx.unique (ofDecimal?_eq_some_iff.1 hgreatest), shortest_greatest] at hlast
  exact absurd hlast (by decide)

end Magnitude

namespace Json.Number
open Magnitude Numeral

theorem floatForm_tie : floatForm.tie = .toEven := rfl

theorem coefficient_numeral_zero {x : Magnitude} (hx : x.significand = 0) (negative : Bool) :
    (floatForm.numeral negative x).coefficient = 0 := by
  rw [Notation.numeral, if_pos hx]
  rfl

/-- The reader's scaling finds the digits of a written double in its range. -/
theorem exists_scaled?_numeral (negative : Bool) (x : Magnitude) :
    (floatForm.numeral negative x).coefficient < 10 ^ 17 ∧
    ∃ y, scaled? (floatForm.numeral negative x).coefficient
        (floatForm.numeral negative x).power = some y ∧
      |y.value - x.value| ≤ 5 * 2 ^ x.exponent := by
  have hnearest := Notation.absValue_numeral floatForm negative x
  rw [absValue_eq] at hnearest
  by_cases hx : x.significand = 0
  · have hzero := coefficient_numeral_zero hx negative
    rw [hzero, Nat.cast_zero, zero_mul] at hnearest
    rw [hzero, scaled?_zero, hnearest.unique nearest_zero]
    refine ⟨by decide, .zero, rfl, ?_⟩
    rw [sub_self, abs_zero]
    positivity
  · have hpos := value_pos_iff.2 hx
    have hshort := coefficient_shortest_lt hpos .toEven
    have hspec := Notation.layoutNumeral_spec floatForm (by decide)
      (if negative then some '-' else none) hshort
    rw [← Notation.numeral_eq floatForm_tie hx] at hspec
    obtain ⟨hlt, hpower⟩ := hspec
    have hcoefficient : 0 < (floatForm.numeral negative x).coefficient := by
      rw [Nat.pos_iff_ne_zero]
      intro hzero
      rw [hzero, Nat.cast_zero, zero_mul] at hnearest
      exact hx (hnearest.unique nearest_zero ▸ rfl)
    refine ⟨hlt, exists_scaled? hcoefficient hlt hpos (fun hlast => ?_) hnearest⟩
    rcases hpower with hle | ⟨hcoeff, hexp⟩
    · omega
    · rw [hcoeff]
      exact coefficient_shortest_le (hexp.symm.trans hlast)

/-- **Doubles.** A written double is read as a double of the same sign, at most five steps away. It
is the same one if its digits make a double and the power of ten behind them is one. -/
theorem exists_reread?_float (negative : Bool) (x : Magnitude) :
    ∃ y, reread? (.float negative x) = some (.float negative y) ∧
      |y.value - x.value| ≤ 5 * 2 ^ x.exponent ∧
      ((∃ f : Magnitude, f.value = (floatForm.numeral negative x).coefficient) →
        -22 ≤ (floatForm.numeral negative x).power ∧ (floatForm.numeral negative x).power ≤ 22 →
        y = x) := by
  obtain ⟨hlt, y, hy, hclose⟩ := exists_scaled?_numeral negative x
  have hread : reread? (.float negative x) = some (.float negative y) := by
    rw [reread?, numeral, ofNumeral?_of_not_isIntegral (Notation.isIntegral_numeral _ _ _),
      Notation.isNegative_numeral]
    · rw [← coefficient, ← power, hy]
      rfl
    · exact lt_trans hlt (by decide)
  refine ⟨y, hread, hclose, ?_⟩
  rintro ⟨f, hf⟩ hpower
  have hnearest := Notation.absValue_numeral floatForm negative x
  rw [absValue_eq] at hnearest
  rw [scaled?_of_exact hf hpower hnearest] at hy
  exact (Option.some.inj hy).symm

end Json.Number
end JoinPlan
