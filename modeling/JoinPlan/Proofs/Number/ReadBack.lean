import JoinPlan.Number.Notation
import JoinPlan.Proofs.Number.Numeral
/-!
# Reading written doubles back

What is written for a double is a numeral of its shortest decimal, so reading it gives the double
back, whatever the layout is.

Results:
* `Magnitude.shortest_nearest`: the shortest decimal of a double is rounded to it.
* `Notation.text_numeral`, `Notation.toBinary64_numeral`: what is written is a numeral, and reading
  it gives the double back.
-/
namespace JoinPlan

/-! ## Decimals -/

namespace Decimal

/-- The number that a decimal stands for. -/
def value (d : Decimal) : ℚ := d.coefficient * 10 ^ d.exponent

theorem toMagnitude?_eq_some_iff {d : Decimal} {x : Magnitude} :
    d.toMagnitude? = some x ↔ Magnitude.Nearest d.value x :=
  Magnitude.ofDecimal?_eq_some_iff

theorem value_strip (d : Decimal) : d.strip.value = d.value := by
  fun_induction strip d with
  | case1 d h ih =>
    have hc : d.coefficient = 10 * (d.coefficient / 10) := by omega
    have hc' : (d.coefficient : ℚ) = 10 * (d.coefficient / 10 : ℕ) := by exact_mod_cast hc
    rw [ih, value, value, hc', zpow_add₀ (by norm_num), zpow_one]
    ring
  | case2 d h => rfl

end Decimal

namespace Magnitude

theorem value_exactDecimal (x : Magnitude) : x.exactDecimal.value = x.value := by
  have hfive : (0 : ℚ) < 5 ^ (-x.exponent).toNat := by positivity
  have htwo : (0 : ℚ) < 2 ^ (-x.exponent).toNat := by positivity
  rw [Decimal.value, exactDecimal, value, zpow_eq_div 2]
  simp only [Nat.pow_eq]
  push_cast
  rcases le_total 0 x.exponent with h | h
  · rw [show min x.exponent 0 = 0 by omega, show (-x.exponent).toNat = 0 by omega]
    simp
  · have hten : (10 : ℚ) ^ min x.exponent 0 =
        1 / (2 ^ (-x.exponent).toNat * 5 ^ (-x.exponent).toNat) := by
      rw [zpow_eq_div, ← mul_pow, show (min x.exponent 0).toNat = 0 by omega,
        show min x.exponent 0 = x.exponent by omega]
      norm_num
    rw [hten]
    field_simp

theorem shortest_nearest (x : Magnitude) (tie : Tie) : Nearest (x.shortest tie).value x := by
  simp only [shortest]
  split
  · rename_i d h
    rw [Decimal.value_strip]
    obtain ⟨n, -, hn⟩ := List.exists_of_findSome?_eq_some h
    exact Decimal.toMagnitude?_eq_some_iff.1 (pick_readsBack hn)
  · rw [Decimal.value_strip, value_exactDecimal]
    exact Nearest.self x

end Magnitude

/-! ## Layouts -/

namespace Notation
open Numeral

variable {sign : Option Char} {digits : List Char} {order : Int}

/-- The numeral that `plain` writes. -/
def plainNumeral (sign : Option Char) (digits : List Char) (order : Int) : Numeral :=
  if order < 0 then
    ⟨sign, ['0'], some (List.replicate (-order - 1).toNat '0' ++ digits), none⟩
  else
    let whole := order.toNat + 1
    let fraction := digits.drop whole
    ⟨sign, digits.take whole ++ List.replicate (whole - digits.length) '0',
      some (if fraction.isEmpty then ['0'] else fraction), none⟩

/-- The numeral that `scientific` writes. -/
def scientificNumeral (n : Notation) (sign : Option Char) (digits : List Char) (order : Int) :
    Numeral :=
  let fraction := digits.drop 1
  ⟨sign, digits.take 1, if fraction.isEmpty then none else some fraction,
    some ⟨'e', if order < 0 then some '-' else if n.exponentPlus then some '+' else none,
      Nat.toDigits 10 order.natAbs⟩⟩

theorem text_plainNumeral (sign : Option Char) (digits : List Char) (order : Int) :
    (plainNumeral sign digits order).text = sign.toList ++ plain digits order := by
  simp only [plainNumeral, plain]
  split <;> simp [Numeral.text]

theorem text_scientificNumeral (n : Notation) (sign : Option Char) (digits : List Char)
    (order : Int) : (n.scientificNumeral sign digits order).text =
      sign.toList ++ n.scientific digits order := by
  simp only [scientificNumeral, scientific, Numeral.text, Option.elim_some]
  split_ifs <;> simp [Exponent.text]

theorem wellFormed_plainNumeral (hs : ∀ c ∈ sign, isSign c = true) (hd : IsDigits digits) :
    (plainNumeral sign digits order).WellFormed := by
  have hzero : ∀ k, ∀ c ∈ List.replicate k '0', c.isDigit = true := by
    intro k c hc
    obtain rfl := List.eq_of_mem_replicate hc
    decide
  unfold plainNumeral
  split
  · refine ⟨hs, by simp, ?_, by simp, .inl (by simp)⟩
    simp only [Option.mem_some_iff, forall_eq']
    refine ⟨by simp [hd.1], fun c hc => ?_⟩
    exact (List.mem_append.1 hc).elim (hzero _ c) (hd.2 c)
  · refine ⟨hs, fun c hc => ?_, ?_, by simp, .inr (by simp)⟩
    · exact (List.mem_append.1 hc).elim (fun h => hd.2 c (List.mem_of_mem_take h)) (hzero _ c)
    · simp only [Option.mem_some_iff, forall_eq']
      split
      · exact isDigits_zero
      · rename_i h
        exact ⟨by simpa using h, fun c hc => hd.2 c (List.mem_of_mem_drop hc)⟩

theorem wellFormed_scientificNumeral (n : Notation) (hs : ∀ c ∈ sign, isSign c = true)
    (hd : IsDigits digits) : (n.scientificNumeral sign digits order).WellFormed := by
  refine ⟨hs, fun c hc => hd.2 c (List.mem_of_mem_take hc), ?_, ?_, .inl ?_⟩
  · simp only [scientificNumeral]
    split
    · simp
    · rename_i h
      simp only [Option.mem_some_iff, forall_eq']
      exact ⟨by simpa using h, fun c hc => hd.2 c (List.mem_of_mem_drop hc)⟩
  · simp only [scientificNumeral, Option.mem_some_iff, forall_eq']
    refine ⟨rfl, ?_, isDigits_toDigits _⟩
    split
    · simp [isSign]
    · split <;> simp [isSign]
  · simp [scientificNumeral, hd.1]

theorem absValue_plainNumeral (sign : Option Char) (digits : List Char) (order : Int) :
    (plainNumeral sign digits order).absValue =
      digitsValue digits * 10 ^ (order + 1 - digits.length) := by
  unfold plainNumeral
  split
  · rename_i h
    have hv : digitsValue (['0'] ++ (List.replicate (-order - 1).toNat '0' ++ digits)) =
        digitsValue digits := by
      have hz : digitsValue ['0'] = 0 := rfl
      rw [digitsValue_append, digitsValue_append, digitsValue_zeros, hz]; simp
    simp only [absValue, Option.getD_some, hv, scale]
    congr 2
    simp only [List.length_append, List.length_replicate]
    push_cast; omega
  · rename_i h
    simp only [absValue, Option.getD_some, scale, List.isEmpty_iff, List.drop_eq_nil_iff]
    split
    · rename_i hle
      have hz : digitsValue ['0'] = 0 := rfl
      rw [List.take_of_length_le hle, digitsValue_append, digitsValue_append, digitsValue_zeros, hz]
      have he : order + 1 - digits.length = ((order.toNat + 1 - digits.length : ℕ) : ℤ) := by omega
      rw [he, zpow_natCast]
      simp only [List.length_replicate, List.length_singleton]
      push_cast
      rw [zpow_neg_one]
      ring
    · rename_i hlt
      rw [show order.toNat + 1 - digits.length = 0 by omega, List.replicate_zero, List.append_nil,
        List.take_append_drop]
      congr 2
      simp only [List.length_drop]
      omega

theorem scale_scientificNumeral (n : Notation) (sign : Option Char) (digits : List Char)
    (order : Int) : (n.scientificNumeral sign digits order).scale = order := by
  simp only [scientificNumeral, scale, digitsValue_toDigits]
  by_cases h : order < 0
  · rw [if_pos h, if_pos rfl]; omega
  · cases n.exponentPlus <;> simp only [h, ↓reduceIte, Option.some.injEq, Char.reduceEq,
      Bool.false_eq_true, reduceCtorEq] <;> omega

theorem fraction_scientificNumeral (n : Notation) (sign : Option Char) (digits : List Char)
    (order : Int) : (n.scientificNumeral sign digits order).fraction.getD [] = digits.drop 1 := by
  simp only [scientificNumeral]
  split
  · rename_i h; simp [List.isEmpty_iff.1 h]
  · rfl

theorem absValue_scientificNumeral (n : Notation) (sign : Option Char) (hd : digits ≠ [])
    (order : Int) : (n.scientificNumeral sign digits order).absValue =
      digitsValue digits * 10 ^ (order + 1 - digits.length) := by
  have hlen := List.length_pos_iff.2 hd
  have hwhole : (n.scientificNumeral sign digits order).whole = digits.take 1 := rfl
  rw [absValue, scale_scientificNumeral, fraction_scientificNumeral, hwhole, List.take_append_drop]
  congr 2
  simp only [List.length_drop]
  omega

/-- The numeral that `layout` writes. -/
def layoutNumeral (n : Notation) (sign : Option Char) (d : Decimal) : Numeral :=
  let digits := Nat.toDigits 10 d.coefficient
  let order := d.exponent + digits.length - 1
  if n.plainFrom ≤ order ∧ order ≤ n.plainThrough then plainNumeral sign digits order
  else n.scientificNumeral sign digits order

theorem text_layoutNumeral (n : Notation) (sign : Option Char) (d : Decimal) :
    (n.layoutNumeral sign d).text = sign.toList ++ n.layout d := by
  simp only [layoutNumeral, layout]
  split
  · exact text_plainNumeral ..
  · exact text_scientificNumeral ..

theorem wellFormed_layoutNumeral (n : Notation) (hs : ∀ c ∈ sign, isSign c = true) (d : Decimal) :
    (n.layoutNumeral sign d).WellFormed := by
  simp only [layoutNumeral]
  split
  · exact wellFormed_plainNumeral hs (isDigits_toDigits _)
  · exact wellFormed_scientificNumeral n hs (isDigits_toDigits _)

theorem sign_layoutNumeral (n : Notation) (sign : Option Char) (d : Decimal) :
    (n.layoutNumeral sign d).sign = sign := by
  simp only [layoutNumeral, plainNumeral, scientificNumeral]
  split_ifs <;> rfl

theorem isIntegral_layoutNumeral (n : Notation) (sign : Option Char) (d : Decimal) :
    (n.layoutNumeral sign d).isIntegral = false := by
  simp only [layoutNumeral, plainNumeral, scientificNumeral, isIntegral]
  split_ifs <;> simp

theorem absValue_layoutNumeral (n : Notation) (sign : Option Char) (d : Decimal) :
    (n.layoutNumeral sign d).absValue = d.value := by
  have he : d.exponent = d.exponent + (Nat.toDigits 10 d.coefficient).length - 1 + 1 -
      (Nat.toDigits 10 d.coefficient).length := by omega
  rw [Decimal.value]
  simp only [layoutNumeral]
  split
  · rw [absValue_plainNumeral, digitsValue_toDigits, ← he]
  · rw [absValue_scientificNumeral n sign Nat.toDigits_ne_nil, digitsValue_toDigits, ← he]

/-- The numeral that is written for a double. -/
def numeral (n : Notation) (negative : Bool) (x : Magnitude) : Numeral :=
  let sign := if negative then some '-' else none
  if x.significand = 0 then ⟨sign, ['0'], some ['0'], none⟩
  else n.layoutNumeral sign (x.shortest n.tie)

theorem text_numeral (n : Notation) (negative : Bool) (x : Magnitude) :
    (n.numeral negative x).text = n.write (.finite negative x) := by
  have hsign : (if negative then some '-' else none).toList = Notation.sign negative := by
    cases negative <;> rfl
  simp only [numeral, write, writeMagnitude]
  split
  · simp [Numeral.text, hsign]
  · rw [text_layoutNumeral, hsign]

theorem wellFormed_numeral (n : Notation) (negative : Bool) (x : Magnitude) :
    (n.numeral negative x).WellFormed := by
  have hsign : ∀ c ∈ if negative then some '-' else none, isSign c = true := by
    cases negative <;> simp [isSign]
  simp only [numeral]
  split
  · refine ⟨hsign, by simp, ?_, by simp, .inl (by simp)⟩
    simp only [Option.mem_some_iff, forall_eq']
    exact isDigits_zero
  · exact wellFormed_layoutNumeral n hsign _

/-- A double is never written like an integer. -/
theorem isIntegral_numeral (n : Notation) (negative : Bool) (x : Magnitude) :
    (n.numeral negative x).isIntegral = false := by
  simp only [numeral]
  split
  · rfl
  · exact isIntegral_layoutNumeral ..

theorem isNegative_numeral (n : Notation) (negative : Bool) (x : Magnitude) :
    (n.numeral negative x).isNegative = negative := by
  have hsign : (n.numeral negative x).sign = if negative then some '-' else none := by
    simp only [numeral]
    split
    · rfl
    · exact sign_layoutNumeral ..
  rw [isNegative, hsign]
  cases negative <;> rfl

theorem absValue_numeral (n : Notation) (negative : Bool) (x : Magnitude) :
    Magnitude.Nearest (n.numeral negative x).absValue x := by
  simp only [numeral]
  split
  · rename_i hx
    have hz : x = .zero := Magnitude.ext hx (x.normal.resolve_right (by rw [hx]; decide))
    have hd : digitsValue (['0'] ++ ['0']) = 0 := rfl
    rw [absValue, Option.getD_some, hd, hz, Nat.cast_zero, zero_mul]
    exact Magnitude.nearest_zero
  · rw [absValue_layoutNumeral]
    exact x.shortest_nearest n.tie

/-- **Read back.** Reading what is written for a double gives the double. -/
theorem toBinary64_numeral (n : Notation) (negative : Bool) (x : Magnitude) :
    (n.numeral negative x).toBinary64 = .finite negative x :=
  toBinary64_eq_finite_iff.2 ⟨isNegative_numeral n negative x, absValue_numeral n negative x⟩

end Notation
end JoinPlan
