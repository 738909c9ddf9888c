import JoinPlan.Json.Number
import JoinPlan.Json.Printer
import JoinPlan.Proofs.Number.ReadBack
/-!
# Reading written numbers

What is written for a number is a numeral that JSON admits, so the reader finds that numeral and
nothing else decides what becomes of the number. An integer of 64 bits becomes itself.

Results:
* `readNumber?_append`: which numeral is read.
* `Significand.pushAll_eq`: digits are taken as long as their number fits.
* `Number.ofNumeral?_of_isIntegral`, `Number.ofNumeral?_of_not_isIntegral`: numerals of few digits.
* `Number.reread?_integer`: integers are read back.
-/
namespace JoinPlan

namespace Numeral

/-- Only zero is written with a leading zero. -/
theorem head?_toDigits {n : ℕ} (h : 0 < n) : (Nat.toDigits 10 n).head? ≠ some '0' := by
  induction n using Nat.strongRecOn with
  | ind n ih =>
    rcases Nat.lt_or_ge n 10 with hlt | hge
    · rw [Nat.toDigits_of_lt_base hlt]
      have hdigit : ∀ m < 10, 0 < m → [m.digitChar].head? ≠ some '0' := by decide
      exact hdigit n hlt h
    · rw [Nat.toDigits_of_base_le (by decide) hge,
        List.head?_append_of_ne_nil _ Nat.toDigits_ne_nil]
      exact ih (n / 10) (by omega) (by omega)

theorem digitsValue_cons (d : Char) (ds : List Char) :
    digitsValue (d :: ds) = 10 ^ ds.length * (d.toNat - '0'.toNat) + digitsValue ds := by
  have hd : digitsValue [d] = d.toNat - '0'.toNat := by
    simp [digitsValue, Nat.ofDigitChars_cons]
  rw [← hd, ← digitsValue_append]
  rfl

theorem digitsValue_lt {ds : List Char} (h : ∀ c ∈ ds, c.isDigit = true) :
    digitsValue ds < 10 ^ ds.length := by
  induction ds with
  | nil => decide
  | cons d ds ih =>
    obtain ⟨hd, hds⟩ := List.forall_mem_cons.1 h
    have hdigit : d.toNat - '0'.toNat ≤ 9 := by
      have : d.toNat ≤ '9'.toNat := (Char.isDigit_iff_toNat.1 hd).2
      exact Nat.sub_le_sub_right this _
    have hrest := ih hds
    rw [digitsValue_cons, List.length_cons, pow_succ]
    have := Nat.mul_le_mul_left (10 ^ ds.length) hdigit
    omega

end Numeral

/-- The shortest decimal of a double other than zero is not zero. -/
theorem Magnitude.coefficient_shortest_pos {x : Magnitude} (hx : x.significand ≠ 0) (tie : Tie) :
    0 < (x.shortest tie).coefficient := by
  rw [Nat.pos_iff_ne_zero]
  intro hzero
  have hnear := x.shortest_nearest tie
  rw [Decimal.value, hzero, Nat.cast_zero, zero_mul] at hnear
  exact hx (hnear.unique nearest_zero ▸ rfl)

namespace Json
open Numeral Text

/-! ## Numerals -/

/-- The numeral that is written for a number. -/
def Number.numeral : Number → Numeral
  | .integer i => Numeral.ofInt i
  | .float negative x => floatForm.numeral negative x

theorem Number.text_numeral (n : Number) : n.numeral.text = n.write := by
  cases n with
  | integer i => rfl
  | float negative x => exact Notation.text_numeral floatForm negative x

theorem Number.wellFormed_numeral (n : Number) : n.numeral.WellFormed := by
  cases n with
  | integer i => exact Numeral.wellFormed_ofInt i
  | float negative x => exact Notation.wellFormed_numeral floatForm negative x

theorem admits_iff {n : Numeral} : admits n = true ↔
    n.sign ≠ some '+' ∧ n.whole ≠ [] ∧ (n.whole.head? ≠ some '0' ∨ n.whole.length = 1) := by
  simp [admits, and_assoc]

theorem admits_ofInt (i : Int) : admits (Numeral.ofInt i) = true := by
  rw [admits_iff]
  refine ⟨?_, Nat.toDigits_ne_nil, ?_⟩
  · simp only [Numeral.ofInt]
    split <;> simp
  · rcases Nat.eq_zero_or_pos i.natAbs with hi | hi
    · right
      simp [Numeral.ofInt, hi]
    · exact .inl (head?_toDigits hi)

theorem admits_layoutNumeral {sign : Option Char} (hsign : sign ≠ some '+') {d : Decimal}
    (hd : 0 < d.coefficient) : admits (floatForm.layoutNumeral sign d) = true := by
  rw [admits_iff, Notation.sign_layoutNumeral]
  refine ⟨hsign, ?_⟩
  obtain ⟨c, cs, hdigits⟩ := List.exists_cons_of_ne_nil (Nat.toDigits_ne_nil (b := 10))
  have hhead := head?_toDigits hd
  rw [hdigits] at hhead
  rw [Notation.layoutNumeral, hdigits]
  split
  · rw [Notation.plainNumeral]
    split
    · exact ⟨by simp, .inr rfl⟩
    · exact ⟨by simp, .inl (by simpa using hhead)⟩
  · exact ⟨by simp [Notation.scientificNumeral], .inr rfl⟩

theorem Number.admits_numeral (n : Number) : admits n.numeral = true := by
  cases n with
  | integer i => exact admits_ofInt i
  | float negative x =>
    have hsign : (if negative then some '-' else none) ≠ some '+' := by cases negative <;> simp
    simp only [numeral, Notation.numeral]
    split
    · rw [admits_iff]
      exact ⟨hsign, by simp, .inr rfl⟩
    · rename_i hx
      exact admits_layoutNumeral hsign (Magnitude.coefficient_shortest_pos hx _)

/-- What becomes of a number that is written and read. -/
def Number.reread? (n : Number) : Option Number := Number.ofNumeral? n.numeral

/-- **Numbers.** A numeral that JSON admits decides what is read, in front of a text with which it
does not go on. -/
theorem readNumber?_append {n : Numeral} (hn : n.WellFormed) (hadmits : admits n = true)
    {rest : List Char} (h : startsWith goesOn rest = false) :
    readNumber? (n.text ++ rest) = (Number.ofNumeral? n).map fun m => (m, rest) := by
  rw [readNumber?, scan?_append hn h]
  simp only [Option.bind_eq_bind, Option.bind_some, hadmits, ↓reduceIte]
  cases Number.ofNumeral? n <;> rfl

/-! ## Significands -/

/-- Digits are taken as long as their number fits 64 bits. -/
theorem Significand.pushAll_eq (ds : List Char) : ∀ v : ℕ,
    10 ^ ds.length * v + digitsValue ds < 2 ^ 64 →
      pushAll ⟨v, false⟩ ds = (⟨10 ^ ds.length * v + digitsValue ds, false⟩, ds.length) := by
  induction ds with
  | nil =>
    intro v h
    simp [pushAll, digitsValue]
  | cons d ds ih =>
    intro v h
    have hstep : 10 ^ (d :: ds).length * v + digitsValue (d :: ds) =
        10 ^ ds.length * (10 * v + (d.toNat - '0'.toNat)) + digitsValue ds := by
      rw [digitsValue_cons, List.length_cons, pow_succ]
      ring
    rw [hstep] at h ⊢
    have hfits : 10 * v + (d.toNat - '0'.toNat) < Nat.pow 2 64 := by
      have hle : 1 * (10 * v + (d.toNat - '0'.toNat)) ≤
          10 ^ ds.length * (10 * v + (d.toNat - '0'.toNat)) :=
        Nat.mul_le_mul_right _ (Nat.one_le_pow _ _ (by decide))
      rw [one_mul] at hle
      exact lt_of_le_of_lt hle (lt_of_le_of_lt (Nat.le_add_right _ _) h)
    have hpush : (⟨v, false⟩ : Significand).push d = ⟨10 * v + (d.toNat - '0'.toNat), false⟩ := by
      simp only [push, hfits, ↓reduceIte, Bool.false_eq_true]
    simp only [pushAll, hpush, ih _ h, Bool.false_eq_true, ↓reduceIte, List.length_cons]

namespace Number

/-- The double that is made of the digits of a numeral and the power of ten behind them. -/
def scaled? (digits : ℕ) (exponent : ℤ) : Option Magnitude := do
  scale? (← Magnitude.ofRatio? digits 1) exponent

/-- A numeral without a point or an exponent is an integer if that fits, and else a double of its
digits. -/
theorem ofNumeral?_of_isIntegral {n : Numeral} (hn : n.isIntegral = true)
    (hfits : digitsValue n.whole < 2 ^ 64) :
    ofNumeral? n = (integer? n.isNegative (digitsValue n.whole)).or
      ((scaled? (digitsValue n.whole) 0).map (.float n.isNegative)) := by
  obtain ⟨sign, whole, fraction, exponent⟩ := n
  obtain ⟨rfl, rfl⟩ : fraction = none ∧ exponent = none := by simpa [isIntegral] using hn
  have hpush := Significand.pushAll_eq whole 0 (by simpa using hfits)
  simp only [Nat.mul_zero, Nat.zero_add] at hpush
  simp only [ofNumeral?, hpush, hn, Nat.sub_self, and_self, ↓reduceIte, Option.getD_none,
    Significand.pushAll, scale, Nat.cast_zero, sub_zero, add_zero, scaled?]
  cases integer? (isNegative ⟨sign, whole, none, none⟩) (digitsValue whole) with
  | some i => rfl
  | none =>
    cases Magnitude.ofRatio? (digitsValue whole) 1 with
    | none => rfl
    | some x =>
      simp only [Option.bind_eq_bind, Option.bind_some, Option.none_or]
      cases scale? x 0 <;> rfl

/-- Any other numeral is a double, made of all of its digits if they fit. -/
theorem ofNumeral?_of_not_isIntegral {n : Numeral} (hn : n.isIntegral = false)
    (hfits : digitsValue (n.whole ++ n.fraction.getD []) < 2 ^ 64) :
    ofNumeral? n = (scaled? (digitsValue (n.whole ++ n.fraction.getD []))
      (n.scale - (n.fraction.getD []).length)).map (.float n.isNegative) := by
  have happend := digitsValue_append n.whole (n.fraction.getD [])
  have hwhole : digitsValue n.whole < 2 ^ 64 := by
    have hle : 1 * digitsValue n.whole ≤
        10 ^ (n.fraction.getD []).length * digitsValue n.whole :=
      Nat.mul_le_mul_right _ (Nat.one_le_pow _ _ (by decide))
    omega
  have hpush := Significand.pushAll_eq n.whole 0 (by simpa using hwhole)
  have hpush' := Significand.pushAll_eq (n.fraction.getD []) (digitsValue n.whole)
    (by rw [← happend]; exact hfits)
  rw [← happend] at hpush'
  simp only [Nat.mul_zero, Nat.zero_add] at hpush
  have hplaces : ((0 : ℕ) : ℤ) - ((n.fraction.getD []).length : ℕ) + n.scale =
      n.scale - (n.fraction.getD []).length := by
    rw [Nat.cast_zero]
    ring
  simp only [ofNumeral?, hpush, hpush', hn, Bool.false_eq_true, false_and, ↓reduceIte, scaled?,
    Nat.sub_self, hplaces]
  cases Magnitude.ofRatio? (digitsValue (n.whole ++ n.fraction.getD [])) 1 with
  | none => rfl
  | some x =>
    simp only [Option.bind_eq_bind, Option.bind_some]
    cases scale? x (n.scale - (n.fraction.getD []).length) <;> rfl

/-- Integers are read back. -/
theorem reread?_integer {i : ℤ} (h : -2 ^ 63 ≤ i ∧ i < 2 ^ 64) :
    reread? (.integer i) = some (.integer i) := by
  have hvalue : digitsValue (Numeral.ofInt i).whole = i.natAbs := digitsValue_toDigits i.natAbs
  suffices hi : integer? (Numeral.ofInt i).isNegative i.natAbs = some (.integer i) by
    rw [reread?, numeral, ofNumeral?_of_isIntegral rfl (by omega), hvalue, hi]
    rfl
  rcases lt_or_ge i 0 with hneg | hneg
  · have hsign : (Numeral.ofInt i).isNegative = true := by
      simp [Numeral.ofInt, isNegative, hneg]
    have hrange : 0 < i.natAbs ∧ i.natAbs ≤ Nat.pow 2 63 := by
      simp only [Nat.pow_eq]
      omega
    rw [integer?, if_pos hsign, if_pos hrange, show -(i.natAbs : ℤ) = i by omega]
  · have hsign : (Numeral.ofInt i).isNegative = false := by
      simp [Numeral.ofInt, isNegative, Int.not_lt.2 hneg]
    have hrange : i.natAbs < Nat.pow 2 64 := by
      simp only [Nat.pow_eq]
      omega
    rw [integer?, hsign, if_neg Bool.false_ne_true, if_pos hrange,
      show (i.natAbs : ℤ) = i by omega]

end Number
end Json
end JoinPlan
