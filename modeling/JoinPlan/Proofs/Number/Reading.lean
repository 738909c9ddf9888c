import JoinPlan.Number.Reading
import JoinPlan.Proofs.Number.Numeral
/-!
# Numerals as whole texts

A numeral is read as a double whatever its form, and as an integer if it is one of 64 bits.

Results:
* `Numeral.readInt64?_text`: which numerals are integers.
* `Numeral.readBinary64?_text`: every numeral is a double.
-/
namespace JoinPlan.Numeral
open Text

variable {n : Numeral}

/-- What stands behind the sign of a numeral. -/
def body (n : Numeral) : List Char :=
  n.whole ++ (n.fraction.elim [] ('.' :: ·) ++ n.exponent.elim [] Exponent.text)

theorem WellFormed.takeSign_text (hn : n.WellFormed) : takeSign n.text = (n.sign, n.body) := by
  have htext : n.text = n.sign.toList ++ n.body := by simp [text, body]
  rw [htext]
  exact takeSign_append hn.sign (hn.startsWith_isSign _)

/-! ## Integers -/

theorem WellFormed.body_ne_nil (hn : n.WellFormed) : n.body ≠ [] := by
  rcases hn.nonempty with h | h
  · simp [body, h]
  · obtain ⟨f, hf⟩ := Option.ne_none_iff_exists'.1 h
    simp [body, hf]

/-- Only digits stand behind the sign of an integral numeral, and something else behind that of
another one. -/
theorem WellFormed.any_body (hn : n.WellFormed) :
    (n.body.any fun c => !c.isDigit) = !n.isIntegral := by
  obtain ⟨sign, whole, fraction, exponent⟩ := n
  obtain ⟨-, hwhole, -, hexponent, -⟩ := hn
  simp only at hwhole hexponent
  have hdigits : (whole.any fun c => !c.isDigit) = false := by simpa using hwhole
  cases fraction with
  | some f => simp [body, isIntegral]
  | none =>
    cases exponent with
    | some x =>
      have hmark := not_isDigit_of_isMark (hexponent x rfl).mark
      simp [body, isIntegral, Exponent.text, hmark]
    | none => simpa [body, isIntegral] using hdigits

theorem readInt64?_text (hn : n.WellFormed) : readInt64? n.text =
    if n.isIntegral ∧ Int64.minValue.toInt ≤ n.integer ∧ n.integer ≤ Int64.maxValue.toInt then
      some (Int64.ofInt n.integer)
    else none := by
  simp only [readInt64?, hn.takeSign_text, hn.body_ne_nil, hn.any_body, false_or]
  cases h : n.isIntegral with
  | false => simp
  | true =>
    have hbody : n.body = n.whole := by
      simp only [isIntegral, Bool.and_eq_true, Option.isNone_iff_eq_none] at h
      simp [body, h]
    simp [hbody, integer, isNegative]

/-! ## Doubles -/

/-- A numeral is no word. -/
theorem WellFormed.map_toLower_body_ne (hn : n.WellFormed) (word : List Char)
    (hword : startsWith Char.isAlpha word = true) : n.body.map Char.toLower ≠ word := by
  obtain ⟨c, u, hbody, hopens⟩ : ∃ c u, n.body = c :: u ∧ opens c = true := by
    have hunsigned : WellFormed { n with sign := none } :=
      ⟨by simp, hn.whole, hn.fraction, hn.exponent, hn.nonempty⟩
    simpa [text, body] using hunsigned.startsWith_text
  rintro rfl
  rw [hbody, List.map_cons, startsWith_cons] at hword
  rw [not_opens_of_isAlpha (isAlpha_of_toLower hword)] at hopens
  cases hopens

/-- The parts of what stands behind the sign. -/
theorem WellFormed.takeParts_body (hn : n.WellFormed) :
    let afterWhole := n.fraction.elim [] ('.' :: ·) ++ n.exponent.elim [] Exponent.text
    takeDigits n.body = (n.whole, afterWhole) ∧
      takePoint afterWhole = (n.fraction.getD [], n.exponent.elim [] Exponent.text) ∧
      takeExponent (n.exponent.elim [] Exponent.text) = (n.exponent, []) := by
  obtain ⟨sign, whole, fraction, exponent⟩ := n
  obtain ⟨-, hwhole, hfraction, hexponent, -⟩ := hn
  simp only at hwhole hfraction hexponent ⊢
  have hdigit : startsWith Char.isDigit (exponent.elim [] Exponent.text) = false := by
    simpa using exponent_startsWith hexponent (t := []) (startsWith_nil goesOn) isDigit_goesOn
  refine ⟨?_, ?_, ?_⟩
  · refine takeDigits_append hwhole ?_
    cases fraction with
    | none => exact hdigit
    | some f => rfl
  · cases fraction with
    | some f => exact takeDigits_append (hfraction f rfl).2 hdigit
    | none =>
      cases exponent with
      | none => rfl
      | some x =>
        have hmark : isMark x.mark = true := (hexponent x rfl).mark
        rw [Option.elim_none, List.nil_append, Option.elim_some, Exponent.text, takePoint]
        · rfl
        · intro s hs
          rw [(List.cons.inj hs).1] at hmark
          cases hmark
  · simpa using takeExponent_append hexponent (t := []) rfl rfl

theorem readBinary64?_text (hn : n.WellFormed) : readBinary64? n.text = some n.toBinary64 := by
  obtain ⟨hwhole, hfraction, hexponent⟩ := hn.takeParts_body
  have hdigit : ¬ (n.whole = [] ∧ n.fraction.getD [] = []) := by
    rintro ⟨hw, hf⟩
    obtain ⟨f, hsome⟩ := Option.ne_none_iff_exists'.1 (hn.nonempty.resolve_left (by simp [hw]))
    exact (hn.fraction f hsome).1 (by simpa [hsome] using hf)
  simp only [readBinary64?, hn.takeSign_text, hn.map_toLower_body_ne "nan".toList rfl,
    hn.map_toLower_body_ne "inf".toList rfl,
    hn.map_toLower_body_ne "infinity".toList rfl, hwhole, hfraction, hexponent, hdigit]
  simp [toBinary64, isNegative, scale]

end JoinPlan.Numeral
