import JoinPlan.Proofs.Number.LongestMatch
import JoinPlan.Proofs.Number.Precision
import JoinPlan.Proofs.Predicate.Tokens
/-!
# Numbers as values

Where a value begins with a numeral, it is the longest one there. It is an integer if it is written
as one and fits 64 bits, else the nearest double, and a failure if that is infinite. A numeral is
never given up in favour of something else.

Results:
* `Numeral.literal?_eq_integer_iff`, `Numeral.literal?_of_nearest`, `Numeral.literal?_eq_none_iff`:
  the value of a numeral.
* `Parser.literal_of_scan?`: a numeral alone decides what is read.
* `Parser.longest_numeral`: which numeral is taken and what is read for it.
-/
namespace JoinPlan

namespace Numeral
open Magnitude

variable {n : Numeral} {i : Int64}

/-- A sign or none and digits, for an integer of 64 bits. -/
def IsInteger (n : Numeral) (i : Int64) : Prop :=
  n.fraction = none ∧ n.exponent = none ∧ n.integer = i.toInt

theorem isInteger_iff : n.IsInteger i ↔ n.isIntegral = true ∧ n.integer = i.toInt := by
  simp [IsInteger, isIntegral, and_assoc]

/-! ## Values that are not too large -/

theorem absValue_nonneg (n : Numeral) : 0 ≤ n.absValue := by
  rw [absValue]
  positivity

/-- Digits alone stand for their number. -/
theorem IsInteger.absValue_eq (h : n.IsInteger i) : n.absValue = |(i.toInt : ℚ)| := by
  obtain ⟨hfraction, hexponent, hinteger⟩ := h
  simp only [← hinteger, absValue, integer, scale, hfraction, hexponent]
  split <;> simp

/-- An integer of 64 bits is far from infinity. -/
theorem IsInteger.lt_overflow (h : n.IsInteger i) : n.absValue < overflow := by
  have hle : |(i.toInt : ℚ)| ≤ 2 ^ 63 := by
    rw [abs_le]
    exact ⟨by exact_mod_cast i.le_toInt, by exact_mod_cast i.toInt_lt.le⟩
  have hpow : (2 : ℚ) ^ 63 ≤ 2 ^ (971 : ℤ) := by
    rw [← zpow_natCast]
    exact two_zpow_le (by decide)
  have hpos := two_zpow_pos 971
  rw [h.absValue_eq, overflow]
  generalize (2 : ℚ) ^ (971 : ℤ) = p at *
  linarith

/-! ## The value of a numeral -/

theorem literal?_eq_integer_iff : n.literal? = some (.integer i) ↔ n.IsInteger i := by
  rw [Parser.numeral_literal_eq_some_iff, isInteger_iff]
  constructor
  · rintro (⟨j, hj, he, h⟩ | ⟨-, x, -, h⟩)
    · cases h
      exact ⟨hj, he⟩
    · cases h
  · rintro ⟨hi, he⟩
    exact .inl ⟨i, hi, he, rfl⟩

theorem literal?_of_nearest (hi : ∀ i, ¬ n.IsInteger i) {x : Magnitude}
    (hx : Nearest n.absValue x) : n.literal? = some (.float (.finite n.isNegative x)) :=
  Parser.numeral_literal_eq_some_iff.2
    (.inr ⟨fun h i he => hi i (isInteger_iff.2 ⟨h, he⟩), x, hx, rfl⟩)

theorem literal?_eq_none_iff : n.literal? = none ↔ overflow ≤ n.absValue := by
  constructor
  · intro h
    by_contra hlt
    obtain ⟨x, hx⟩ := exists_nearest n.absValue_nonneg (not_le.1 hlt)
    have hi : ∀ i, ¬ n.IsInteger i := by
      intro i hi
      rw [literal?_eq_integer_iff.2 hi] at h
      cases h
    rw [literal?_of_nearest hi hx] at h
    cases h
  · intro h
    cases hv : n.literal? with
    | none => rfl
    | some v =>
      rcases Parser.numeral_literal_eq_some_iff.1 hv with ⟨i, hi, he, -⟩ | ⟨-, x, hx, -⟩
      · exact absurd h (not_le.2 (isInteger_iff.2 ⟨hi, he⟩).lt_overflow)
      · exact absurd h (not_le.2 hx.below)

end Numeral

namespace Parser
open Numeral Magnitude

variable {s rest : List Char} {n : Numeral}

/-- Where a numeral begins, no quoted text does. -/
theorem quoted_ne_read_of_scan? (h : scan? s = some (n, rest)) (t : String) (r : List Char) :
    quoted s ≠ .read t r := by
  obtain ⟨c, u, hc, hopens⟩ := (scan?_wellFormed h).startsWith_text
  rw [← scan?_text h, hc, List.cons_append]
  refine quoted_ne_read ?_ ?_ _ t
  · rintro rfl
    cases hopens
  · rintro rfl
    cases hopens

theorem literal_of_scan? (h : scan? s = some (n, rest)) : literal s =
    match n.literal? with
    | some v => .read v rest
    | none => .broken (.single .numberRange s) := by
  rw [literal]
  split
  · rename_i t r hquoted
    exact absurd hquoted (quoted_ne_read_of_scan? h t r)
  · simp only [h]
    exact number_text (scan?_wellFormed h) s rest

theorem literal_eq_read_iff (h : scan? s = some (n, rest)) {v : Literal} :
    literal s = .read v rest ↔ n.literal? = some v := by
  rw [literal_of_scan? h]
  cases n.literal? <;> simp

theorem literal_eq_broken_iff (h : scan? s = some (n, rest)) :
    literal s = .broken (.single .numberRange s) ↔ n.literal? = none := by
  rw [literal_of_scan? h]
  cases n.literal? <;> simp

theorem literal_ne_absent (h : scan? s = some (n, rest)) (e : SyntaxError) :
    literal s ≠ .absent e := by
  rw [literal_of_scan? h]
  cases n.literal? <;> simp

/-- **Maximal munch.** Trying the forms of a numeral in order, with no way back, is scanning, and what
is scanned is the longest numeral in front of a text, if there is one. It is read as an integer
exactly if it is one of 64 bits, it fails exactly if it is rounded to infinity, and otherwise it is
read as the nearest double; there is no fourth case. -/
theorem longest_numeral (s : List Char) :
    Taker.numeral s = (scan? s).map (fun r => (r.1.text, r.2)) ∧
    (scan? s = none ↔ ∀ u, u <+: s → ¬ IsNumeral u) ∧
    ∀ n rest,
      (scan? s = some (n, rest) ↔ n.WellFormed ∧ n.text ++ rest = s ∧
        ∀ u, u <+: s → IsNumeral u → u.length ≤ n.text.length) ∧
      (scan? s = some (n, rest) →
        (∀ i, literal s = .read (.integer i) rest ↔ n.IsInteger i) ∧
        (literal s = .broken (.single .numberRange s) ↔ overflow ≤ n.absValue) ∧
        ((∀ i, ¬ n.IsInteger i) → n.absValue < overflow → ∃ x, Nearest n.absValue x ∧
          literal s = .read (.float (.finite n.isNegative x)) rest) ∧
        ∀ e, literal s ≠ .absent e) := by
  refine ⟨Taker.numeral_eq s, scan?_eq_none_iff, fun n rest => ⟨scan?_eq_some_iff, fun h => ?_⟩⟩
  refine ⟨fun i => ?_, ?_, fun hi hlt => ?_, literal_ne_absent h⟩
  · rw [literal_eq_read_iff h, literal?_eq_integer_iff]
  · rw [literal_eq_broken_iff h, literal?_eq_none_iff]
  · obtain ⟨x, hx⟩ := exists_nearest n.absValue_nonneg hlt
    exact ⟨x, hx, (literal_eq_read_iff h).2 (literal?_of_nearest hi hx)⟩

/-- A point without digits behind it and an exponent without digits are left where they are; a numeral
that is too large is not cut short. -/
theorem longest_numeral_of_stops :
    let s := "-007.e5]".toList
    let t := "+.5e-]".toList
    let w := "9e400]".toList
    let n : Numeral := ⟨none, ['9'], none, some ⟨'e', none, "400".toList⟩⟩
    (scan? s = some (⟨some '-', "007".toList, none, none⟩, ".e5]".toList) ∧
      literal s = .read (.integer (-7)) ".e5]".toList) ∧
    (scan? t = some (⟨some '+', [], some ['5'], none⟩, "e-]".toList) ∧
      ∀ u, u <+: t → IsNumeral u → u.length ≤ 3) ∧
    (scan? w = some (n, [']']) ∧ literal w = .broken (.single .numberRange w)) := by
  intro s t w n
  have hs : scan? s = some (⟨some '-', "007".toList, none, none⟩, ".e5]".toList) := by decide
  have ht : scan? t = some (⟨some '+', [], some ['5'], none⟩, "e-]".toList) := by decide
  have hw : scan? w = some (n, [']']) := by decide
  have hlarge : overflow ≤ n.absValue :=
    overflow_le_of_log2 (c := 9) (e := 400) (by decide) (by decide) (by decide)
  obtain ⟨-, -, hs'⟩ := longest_numeral s
  obtain ⟨-, -, ht'⟩ := longest_numeral t
  obtain ⟨-, -, hw'⟩ := longest_numeral w
  exact ⟨⟨hs, (((hs' _ _).2 hs).1 _).2 ⟨rfl, rfl, by decide⟩⟩, ⟨ht, ((ht' _ _).1.1 ht).2.2⟩,
    hw, ((hw' _ _).2 hw).2.1.2 hlarge⟩

end Parser
end JoinPlan
