import JoinPlan.Proofs.Json.Document
import JoinPlan.Proofs.Json.Scaling
import JoinPlan.Proofs.Predicate.Members
/-!
# Integers in the text and in the JSON form

Digits with a minus sign or none are a value in the text of a predicate and a number in its JSON
form. The reader of texts decides at once whether they are an integer of 64 bits, and rounds the
whole numeral if they are not. The reader of JSON first keeps what fits a word of 64 bits, signed
behind a minus sign and unsigned otherwise, and what is kept is then narrowed or rounded once more.
Up to `2 ^ 64` both find the same literal, with the one exception of a minus sign in front of zero.

Results:
* `IntegerToken.exists_denotes`: there is a literal for every token whose digits fit 64 bits.
* `IntegerToken.Denotes.value_text`: it is read in a text.
* `IntegerToken.Denotes.exists_number`: it is read in JSON.
* `IntegerToken.literal_eq_ofJson`: both readers on every token.
-/
namespace JoinPlan
open Json Numeral

/-- An integer as JSON writes it: digits, perhaps behind a minus sign, with a leading zero only
where it is the only digit. -/
structure IntegerToken where
  negative : Bool
  digits : List Char
  isDigits : IsDigits digits
  canonical : digits.head? = some '0' → digits = ['0']

namespace IntegerToken

variable (t : IntegerToken) {v : Literal}

def text : List Char := (if t.negative then ['-'] else []) ++ t.digits

def magnitude : ℕ := digitsValue t.digits

def value : ℤ := if t.negative then -t.magnitude else t.magnitude

/-- The literal for a token: the integer if it is one of 64 bits, else the double nearest to it. -/
inductive Denotes : Literal → Prop where
  | integer {k : Int64} (h : t.value = k.toInt) : Denotes (.integer k)
  | float {x : Magnitude} (h : ∀ k : Int64, t.value ≠ k.toInt)
    (hx : Magnitude.Nearest t.magnitude x) : Denotes (.float (.finite t.negative x))

/-! ## The numeral of a token -/

def numeral : Numeral := ⟨if t.negative then some '-' else none, t.digits, none, none⟩

theorem text_numeral : t.numeral.text = t.text := by
  cases h : t.negative <;> simp [numeral, Numeral.text, text, h]

theorem isNegative_numeral : t.numeral.isNegative = t.negative := by
  cases h : t.negative <;> simp [numeral, isNegative, h]

theorem integer_numeral : t.numeral.integer = t.value := by
  rw [integer, t.isNegative_numeral]
  rfl

theorem absValue_numeral : t.numeral.absValue = t.magnitude := by
  simp [absValue, numeral, scale, magnitude]

theorem wellFormed_numeral : t.numeral.WellFormed := by
  refine ⟨?_, t.isDigits.2, by simp [numeral], by simp [numeral], .inl t.isDigits.1⟩
  cases h : t.negative <;> simp [numeral, isSign, h]

theorem admits_numeral : admits t.numeral = true := by
  refine admits_iff.2 ⟨?_, t.isDigits.1, ?_⟩
  · cases h : t.negative <;> simp [numeral, h]
  · by_cases h : t.digits.head? = some '0'
    · exact .inr (by rw [numeral, t.canonical h]; rfl)
    · exact .inl h

/-! ## Zero -/

theorem digits_eq_zero (h : t.magnitude = 0) : t.digits = ['0'] := by
  obtain ⟨d, ds, hds⟩ := List.exists_cons_of_ne_nil t.isDigits.1
  have hdigit := Char.isDigit_iff_toNat.1 (t.isDigits.2 d (by simp [hds]))
  rw [magnitude, hds, digitsValue_cons] at h
  have hd : d.toNat - '0'.toNat = 0 := by
    have hpos : 0 < 10 ^ ds.length := by positivity
    exact (Nat.mul_eq_zero.1 (Nat.eq_zero_of_add_eq_zero_right h)).resolve_left hpos.ne'
  refine t.canonical ?_
  rw [hds, List.head?_cons, Option.some.injEq, ← Char.toNat_inj]
  exact le_antisymm (Nat.sub_eq_zero_iff_le.1 hd) hdigit.1

theorem text_eq_minus_zero_iff :
    t.text = "-0".toList ↔ t.negative = true ∧ t.magnitude = 0 := by
  constructor
  · intro h
    cases hneg : t.negative with
    | true =>
      rw [text, hneg] at h
      have hdigits : t.digits = ['0'] := (List.cons.inj h).2
      exact ⟨rfl, by rw [magnitude, hdigits]; rfl⟩
    | false =>
      rw [text, hneg] at h
      have hminus := t.isDigits.2 '-' (by rw [show t.digits = "-0".toList from h]; decide)
      cases hminus
  · rintro ⟨hneg, hzero⟩
    rw [text, hneg, t.digits_eq_zero hzero]
    rfl

/-! ## The literal of a token -/

theorem exists_toInt_eq {i : ℤ} (h : -2 ^ 63 ≤ i ∧ i < 2 ^ 63) : ∃ k : Int64, i = k.toInt :=
  Parser.exists_int64_iff.1 ⟨h.1, Int.le_sub_one_of_lt h.2⟩

theorem exists_denotes (hsize : t.magnitude < 2 ^ 64) : ∃ v, t.Denotes v := by
  by_cases h : ∃ k : Int64, t.value = k.toInt
  · obtain ⟨k, hk⟩ := h
    exact ⟨_, .integer hk⟩
  · have hpow : (10 : ℚ) ^ 20 ≤ 10 ^ 308 := pow_le_pow_right₀ (by norm_num) (by decide)
    have hle : (t.magnitude : ℚ) ≤ 10 ^ 20 := by exact_mod_cast hsize.le.trans (by norm_num)
    obtain ⟨x, hx⟩ := Magnitude.exists_nearest (Nat.cast_nonneg t.magnitude)
      (lt_overflow_of_le (hle.trans hpow))
    exact ⟨_, .float (fun k hk => h ⟨k, hk⟩) hx⟩

/-- In a text the literal of a token is read. -/
theorem Denotes.value_text {t : IntegerToken} (h : t.Denotes v) : Grammar.Value t.text v := by
  rw [← t.text_numeral]
  cases h with
  | integer h =>
    exact .integer t.wellFormed_numeral rfl (t.integer_numeral.trans h)
  | float h hx =>
    rw [← t.isNegative_numeral]
    refine .float t.wellFormed_numeral (fun _ k => t.integer_numeral ▸ h k) ?_
    rw [t.absValue_numeral]
    exact hx

/-! ## What JSON keeps of a token -/

section

variable (hsize : t.magnitude < 2 ^ 64)

include hsize

theorem ofNumeral?_numeral : Number.ofNumeral? t.numeral =
    (Number.integer? t.negative t.magnitude).or
      ((Number.scaled? t.magnitude 0).map (.float t.negative)) := by
  have h := Number.ofNumeral?_of_isIntegral (n := t.numeral) rfl hsize
  rwa [t.isNegative_numeral] at h

theorem ofNumeral?_of_nonneg (hneg : t.negative = false) :
    Number.ofNumeral? t.numeral = some (.integer t.magnitude) := by
  rw [t.ofNumeral?_numeral hsize, hneg, Number.integer?, if_neg Bool.false_ne_true, Nat.pow_eq,
    if_pos hsize]
  rfl

theorem ofNumeral?_of_neg (hneg : t.negative = true)
    (hrange : 0 < t.magnitude ∧ t.magnitude ≤ 2 ^ 63) :
    Number.ofNumeral? t.numeral = some (.integer (-t.magnitude)) := by
  rw [t.ofNumeral?_numeral hsize, hneg, Number.integer?, if_pos rfl, Nat.pow_eq, if_pos hrange]
  rfl

/-- Behind a minus sign neither zero is kept as an integer nor what does not fit a signed word. -/
theorem ofNumeral?_of_neg_of_not (hneg : t.negative = true)
    (hrange : ¬ (0 < t.magnitude ∧ t.magnitude ≤ 2 ^ 63)) {x : Magnitude}
    (hx : Magnitude.Nearest t.magnitude x) :
    Number.ofNumeral? t.numeral = some (.float true x) := by
  rw [t.ofNumeral?_numeral hsize, hneg, Number.integer?, if_pos rfl, Nat.pow_eq, if_neg hrange,
    Number.scaled?_of_nearest hx]
  rfl

/-- Unless it is a zero behind a minus sign, a token is kept as a number that is read as its
literal. The number is an integer also from `2 ^ 63` on, where the literal is a float. -/
theorem Denotes.exists_number (h : t.Denotes v) (hzero : t.negative = true → 0 < t.magnitude) :
    ∃ n, Number.ofNumeral? t.numeral = some n ∧ Literal.Describes (.number n) v := by
  cases hneg : t.negative with
  | false =>
    have hvalue : t.value = t.magnitude := by simp [value, hneg]
    refine ⟨_, t.ofNumeral?_of_nonneg hsize hneg, ?_⟩
    cases h with
    | integer h => exact .integer (hvalue ▸ h)
    | float h hx =>
      have hsign : t.negative = decide ((t.magnitude : ℤ) < 0) := by
        rw [hneg, eq_comm, decide_eq_false_iff_not, not_lt]
        exact Int.natCast_nonneg _
      rw [hsign]
      exact .wide (hvalue ▸ h) (by simpa using hx)
  | true =>
    have hvalue : t.value = -t.magnitude := by simp [value, hneg]
    cases h with
    | @integer k h =>
      have hle : t.magnitude ≤ 2 ^ 63 := by
        have := k.le_toInt
        omega
      exact ⟨_, t.ofNumeral?_of_neg hsize hneg ⟨hzero hneg, hle⟩, .integer (hvalue ▸ h)⟩
    | @float x h hx =>
      have hwide : ¬ (0 < t.magnitude ∧ t.magnitude ≤ 2 ^ 63) := by
        rintro ⟨-, hle⟩
        obtain ⟨k, hk⟩ := exists_toInt_eq (i := t.value) (by omega)
        exact h k hk
      exact ⟨_, t.ofNumeral?_of_neg_of_not hsize hneg hwide hx, hneg ▸ .float true x⟩

end

/-- **Integers.** For every token below `2 ^ 64` the same literal is read in a text and in JSON, but
for the minus sign in front of zero, which only JSON keeps. -/
theorem literal_eq_ofJson (t : IntegerToken) (hsize : t.magnitude < 2 ^ 64) :
    ∃ v w, t.Denotes v ∧ Parser.literal t.text = .read v [] ∧
      (Json.parse? t.text).map Literal.ofJson? = some (.ok w) ∧
      if t.text = "-0".toList then v = .integer 0 ∧ w = .float (.finite true .zero) else w = v := by
  obtain ⟨v, hv⟩ := t.exists_denotes hsize
  have hread := Parser.literal_of_value (r := []) (Text.startsWith_nil _) hv.value_text
  rw [List.append_nil] at hread
  rw [← t.text_numeral, parse?_numeral t.wellFormed_numeral t.admits_numeral, t.text_numeral]
  split
  · -- a text has zero as an integer, which has no sign; JSON has it as a double, which has one
    rename_i hminus
    obtain ⟨hneg, hzero⟩ := t.text_eq_minus_zero_iff.1 hminus
    have hvalue : t.value = (0 : Int64).toInt := by simp [value, hzero]
    have hnearest : Magnitude.Nearest t.magnitude .zero := by
      simpa [hzero] using Magnitude.nearest_zero
    rw [t.ofNumeral?_of_neg_of_not hsize hneg (by omega) hnearest]
    refine ⟨v, _, hv, hread, rfl, ?_, rfl⟩
    cases hv with
    | integer h => rw [Int64.toInt_inj.1 (h.symm.trans hvalue)]
    | float h hx => exact absurd hvalue (h 0)
  · rename_i hminus
    have hzero : t.negative = true → 0 < t.magnitude := fun hneg =>
      Nat.pos_iff_ne_zero.2 fun h => hminus (t.text_eq_minus_zero_iff.2 ⟨hneg, h⟩)
    obtain ⟨n, hn, hdescribes⟩ := hv.exists_number t hsize hzero
    rw [hn]
    exact ⟨v, v, hv, hread, congrArg some (Literal.ofJson?_eq_ok_iff.2 hdescribes), rfl⟩

/-- One below the least integer of 64 bits. -/
def belowInt64 : IntegerToken :=
  ⟨true, "9223372036854775809".toList, ⟨by decide, List.all_eq_true.1 (by decide)⟩, by decide⟩

/-- A minus sign in front of zero. -/
def minusZero : IntegerToken :=
  ⟨true, ['0'], isDigits_zero, fun _ => rfl⟩

/-- One below the integers of 64 bits both readers take the nearest double; the zero with a sign is the
one token on which they differ. -/
theorem literal_eq_ofJson_of_belowInt64 :
    belowInt64.magnitude = 2 ^ 63 + 1 ∧
      (∃ x, Magnitude.Nearest belowInt64.magnitude x ∧
        Parser.literal "-9223372036854775809".toList = .read (.float (.finite true x)) [] ∧
        (Json.parse? "-9223372036854775809".toList).map Literal.ofJson? =
          some (.ok (.float (.finite true x)))) ∧
      minusZero.magnitude = 0 ∧ Parser.literal "-0".toList = .read (.integer 0) [] ∧
      (Json.parse? "-0".toList).map Literal.ofJson? =
        some (.ok (.float (.finite true .zero))) := by
  have hwide : belowInt64.magnitude = 2 ^ 63 + 1 := by decide
  have hzero : minusZero.magnitude = 0 := by decide
  refine ⟨hwide, ?_, hzero, ?_⟩
  · obtain ⟨v, w, hv, htext, hjson, h⟩ := literal_eq_ofJson belowInt64 (by omega)
    rw [if_neg (by decide)] at h
    subst h
    cases hv with
    | @integer k h =>
      have hvalue : belowInt64.value = -(2 ^ 63 + 1) := by
        rw [value, hwide]
        rfl
      have := k.le_toInt
      omega
    | float _ hx => exact ⟨_, hx, htext, hjson⟩
  · obtain ⟨v, w, -, htext, hjson, h⟩ := literal_eq_ofJson minusZero (by omega)
    rw [if_pos (by decide)] at h
    obtain ⟨rfl, rfl⟩ := h
    exact ⟨htext, hjson⟩

end IntegerToken
end JoinPlan
