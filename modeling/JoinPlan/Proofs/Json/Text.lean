import Mathlib.Tactic.SplitIfs
import JoinPlan.Json.Text
/-!
# Reading written texts

Every character of a text is written as itself or as an escape, and the reader makes that character
of it, whatever stands behind it. So a text is found again up to its closing quote.

Results:
* `readText?_escape`: one character.
* `readText?_flatMap_escape`, `exists_writeText`: a whole text.
-/
namespace JoinPlan.Json

theorem hexValue?_hexDigit : ∀ n < 16, hexValue? (hexDigit n) = some n := by
  decide

/-- The unit of two zeros and two further digits is a byte. -/
theorem unit?_byte {n : Nat} (h : n < 0x100) :
    unit? '0' '0' (hexDigit (n / 16)) (hexDigit (n % 16)) = some n := by
  have hzero : hexValue? '0' = some 0 := rfl
  have hhigh := hexValue?_hexDigit (n / 16) (by omega)
  have hlow := hexValue?_hexDigit (n % 16) (by omega)
  simp only [unit?, hzero, hhigh, hlow, Option.bind_eq_bind, Option.bind_some, pure,
    Option.some.injEq]
  omega

theorem scalar?_toNat (c : Char) : scalar? c.toNat = some c := by
  have hvalid : c.toNat.isValidChar := c.valid
  rw [scalar?, if_pos hvalid, Char.ofNat_toNat]

/-- An escaped code point of a character stands for the character, also in front of another escaped
code point. -/
theorem readText?_unit {a b c d x : Char} {n : Nat} (hunit : unit? a b c d = some n)
    (hchar : scalar? n = some x) (s : List Char) :
    readText? ('\\' :: 'u' :: a :: b :: c :: d :: s) =
      (readText? s).map fun (t, rest) => (x :: t, rest) := by
  by_cases hs : ∃ a' b' c' d' s', s = '\\' :: 'u' :: a' :: b' :: c' :: d' :: s'
  · -- the reader looks whether the two make a pair; the first one is no surrogate
    obtain ⟨a', b', c', d', s', rfl⟩ := hs
    rw [readText?.eq_3]
    simp only [hunit, hchar, Option.bind_eq_bind, Option.bind_some]
    cases readText? ('\\' :: 'u' :: a' :: b' :: c' :: d' :: s') <;> rfl
  · rw [readText?.eq_4]
    · simp only [hunit, hchar, Option.bind_eq_bind, Option.bind_some]
      cases readText? s <;> rfl
    · intro a' b' c' d' s' he
      exact hs ⟨a', b', c', d', s', he⟩

theorem readText?_letter {letter x : Char} (h : unescape? letter = some x) (s : List Char) :
    readText? ('\\' :: letter :: s) = (readText? s).map fun (t, rest) => (x :: t, rest) := by
  have hu : letter ≠ 'u' := by
    rintro rfl
    cases h
  rw [readText?.eq_5]
  · simp only [h, Option.bind_eq_bind, Option.bind_some]
    cases readText? s <;> rfl
  · intro _ _ _ _ _ _ _ _ _ he
    exact absurd he hu
  · intro _ _ _ _ _ he
    exact absurd he hu

theorem readText?_plain {c : Char} (hquote : c ≠ '"') (hslash : c ≠ '\\') (h : ¬ c.toNat < 0x20)
    (s : List Char) : readText? (c :: s) = (readText? s).map fun (t, rest) => (c :: t, rest) := by
  have hc : ¬ (c = '\\' ∨ c.toNat < 0x20) := by
    rw [not_or]
    exact ⟨hslash, h⟩
  rw [readText?.eq_6]
  · rw [if_neg hc]
    cases readText? s <;> rfl
  · exact hquote
  · intro _ _ _ _ _ _ _ _ _ he
    exact absurd he hslash
  · intro _ _ _ _ _ he
    exact absurd he hslash
  · intro _ _ he
    exact absurd he hslash

/-- **Step.** The reader makes a character of what is written for it. -/
theorem readText?_escape (c : Char) (s : List Char) :
    readText? (escape c ++ s) = (readText? s).map fun (t, rest) => (c :: t, rest) := by
  unfold escape
  split_ifs with h₁ h₂ h₃ h₄ h₅ h₆ h₇ h₈
  · subst h₁
    exact readText?_letter rfl s
  · subst h₂
    exact readText?_letter rfl s
  · subst h₃
    exact readText?_letter rfl s
  · subst h₄
    exact readText?_letter rfl s
  · subst h₅
    exact readText?_letter rfl s
  · subst h₆
    exact readText?_letter rfl s
  · subst h₇
    exact readText?_letter rfl s
  · exact readText?_unit (unit?_byte (by omega)) (scalar?_toNat c) s
  · exact readText?_plain h₁ h₂ h₈ s

/-- **Run.** A written text is read up to its closing quote. -/
theorem readText?_flatMap_escape (t rest : List Char) :
    readText? (t.flatMap escape ++ '"' :: rest) = some (t, rest) := by
  induction t with
  | nil => exact readText?.eq_2 rest
  | cons c t ih =>
    rw [List.flatMap_cons, List.append_assoc, readText?_escape, ih]
    rfl

/-- What is written for a text is a quote, and behind it what is read as the text. -/
theorem exists_writeText (t : String) (rest : List Char) :
    ∃ s, writeText t ++ rest = '"' :: s ∧ readText? s = some (t.toList, rest) := by
  refine ⟨t.toList.flatMap escape ++ '"' :: rest, ?_, readText?_flatMap_escape t.toList rest⟩
  simp [writeText]

end JoinPlan.Json
