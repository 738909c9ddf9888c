import JoinPlan.Number.Binary64
/-!
# Numerals

A numeral is the written form of a number: an optional sign, digits with at most one point in
them, and an optional exponent. `scan?` takes the longest numeral in front of a text: a point
without digits behind it and an exponent without digits are left where they are.

Results:
* `scan?_text`: what is taken and what is left make up the text.
* `integer_ofInt`: the numeral of an integer denotes it.
-/
namespace JoinPlan

/-- The exponent of a numeral as it is written. -/
structure Numeral.Exponent where
  mark : Char
  sign : Option Char
  digits : List Char
  deriving DecidableEq, Repr

/-- A number as it is written. -/
structure Numeral where
  sign : Option Char
  /-- the digits in front of the point -/
  whole : List Char
  /-- the digits behind the point, if there is one -/
  fraction : Option (List Char)
  exponent : Option Numeral.Exponent
  deriving DecidableEq, Repr

namespace Numeral

def Exponent.text (e : Exponent) : List Char :=
  e.mark :: (e.sign.toList ++ e.digits)

/-- The characters of the numeral. -/
def text (n : Numeral) : List Char :=
  n.sign.toList ++ n.whole ++ (n.fraction.elim [] ('.' :: ·)) ++ (n.exponent.elim [] Exponent.text)

/-- The sign in front of a text, if there is one, and the rest. -/
def takeSign : List Char → Option Char × List Char
  | c :: s => if c = '+' ∨ c = '-' then (some c, s) else (none, c :: s)
  | [] => (none, [])

/-- The digits in front of a text and the rest. -/
def takeDigits (s : List Char) : List Char × List Char :=
  (s.takeWhile Char.isDigit, s.dropWhile Char.isDigit)

/-- The point and the digits in front of a text, if there is at least one digit. -/
def takeFraction : List Char → Option (List Char) × List Char
  | '.' :: s =>
    match takeDigits s with
    | ([], _) => (none, '.' :: s)
    | (digits, rest) => (some digits, rest)
  | s => (none, s)

/-- The exponent in front of a text, if it has at least one digit. -/
def takeExponent : List Char → Option Exponent × List Char
  | mark :: s =>
    if mark = 'e' ∨ mark = 'E' then
      let (sign, t) := takeSign s
      match takeDigits t with
      | ([], _) => (none, mark :: s)
      | (digits, rest) => (some ⟨mark, sign, digits⟩, rest)
    else (none, mark :: s)
  | [] => (none, [])

/-- The longest numeral in front of a text, and the rest.
mirrors what `parse_numeric_literal` takes -/
def scan? (s : List Char) : Option (Numeral × List Char) :=
  let (sign, afterSign) := takeSign s
  let (whole, afterWhole) := takeDigits afterSign
  let (fraction, afterFraction) := takeFraction afterWhole
  let (exponent, rest) := takeExponent afterFraction
  if whole = [] ∧ fraction = none then none else some (⟨sign, whole, fraction, exponent⟩, rest)

theorem takeSign_text (s : List Char) : (takeSign s).1.toList ++ (takeSign s).2 = s := by
  cases s with
  | nil => rfl
  | cons c s => simp only [takeSign]; split <;> simp

theorem takeDigits_text (s : List Char) : (takeDigits s).1 ++ (takeDigits s).2 = s :=
  List.takeWhile_append_dropWhile

theorem takeFraction_text (s : List Char) :
    (takeFraction s).1.elim [] ('.' :: ·) ++ (takeFraction s).2 = s := by
  unfold takeFraction
  split
  · rename_i s
    have h := takeDigits_text s
    split
    · simp
    · rename_i digits rest _ e
      rw [e] at h
      simpa using h
  · simp

theorem takeExponent_text (s : List Char) :
    (takeExponent s).1.elim [] Exponent.text ++ (takeExponent s).2 = s := by
  cases s with
  | nil => rfl
  | cons mark s =>
    simp only [takeExponent]
    split
    · have hs := takeSign_text s
      have hd := takeDigits_text (takeSign s).2
      split
      · simp
      · rename_i digits rest _ e
        rw [e] at hd
        simp only [Option.elim_some, Exponent.text, List.cons_append, List.append_assoc]
        simp only at hd
        rw [hd, hs]
    · simp

theorem scan?_text {s rest : List Char} {n : Numeral} (h : scan? s = some (n, rest)) :
    n.text ++ rest = s := by
  have hs := takeSign_text s
  have hd := takeDigits_text (takeSign s).2
  have hf := takeFraction_text (takeDigits (takeSign s).2).2
  have he := takeExponent_text (takeFraction (takeDigits (takeSign s).2).2).2
  simp only [scan?] at h
  split at h
  · simp at h
  · simp only [Option.some.injEq, Prod.mk.injEq] at h
    obtain ⟨rfl, rfl⟩ := h
    simp only [text, List.append_assoc, he, hf, hd, hs]

/-! ## Value -/

/-- Whether a minus sign stands in front. -/
def isNegative (n : Numeral) : Bool := n.sign = some '-'

/-- Whether the numeral is digits only, apart from its sign. -/
def isIntegral (n : Numeral) : Bool := n.fraction.isNone && n.exponent.isNone

/-- The number that a list of digits denotes. -/
def digitsValue (digits : List Char) : Nat := Nat.ofDigitChars 10 digits 0

/-- The exponent's number, zero without an exponent. -/
def scale (n : Numeral) : Int :=
  match n.exponent with
  | none => 0
  | some e => if e.sign = some '-' then -(digitsValue e.digits : Int) else digitsValue e.digits

/-- The number that an integral numeral denotes. -/
def integer (n : Numeral) : Int :=
  if n.isNegative then -(digitsValue n.whole : Int) else digitsValue n.whole

/-- The numeral without a point or an exponent that denotes `i`. -/
def ofInt (i : Int) : Numeral :=
  ⟨if i < 0 then some '-' else none, Nat.toDigits 10 i.natAbs, none, none⟩

/-- The double nearest to the number, infinite beyond the largest double. -/
def toBinary64 (n : Numeral) : Binary64 :=
  let fraction := n.fraction.getD []
  .ofDecimal n.isNegative (digitsValue (n.whole ++ fraction)) (n.scale - fraction.length)

theorem integer_ofInt (i : Int) : (ofInt i).integer = i := by
  have h : digitsValue (Nat.toDigits 10 i.natAbs) = i.natAbs :=
    Nat.ofDigitChars_toDigits (by decide) (by decide)
  simp only [integer, ofInt, isNegative, h]
  by_cases hi : i < 0
  · simp only [hi, ↓reduceIte, decide_true]; omega
  · simp only [hi, ↓reduceIte]; simp; omega

end Numeral
end JoinPlan
