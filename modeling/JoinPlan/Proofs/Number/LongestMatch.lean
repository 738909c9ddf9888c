import JoinPlan.Proofs.Number.Numeral
/-!
# The longest numeral

A text may begin with several numerals, each a part of the next: `1`, `1.5` and `1.5e3` in front of
`1.5e3e`. Taking the sign, the digits, the fraction and the exponent one after the other, each as far
as it goes and none given back, finds the longest of them.

Results:
* `Numeral.takeDigits_append_digits`, `Numeral.takeFraction_append_digits`,
  `Numeral.takeExponent_append_digits`: each part takes all digits that there are.
* `Numeral.WellFormed.exists_scan?`: what is left lies behind every numeral in front of the text.
* `Numeral.scan?_eq_some_iff`, `Numeral.scan?_eq_none_iff`: what is scanned is the longest numeral.
* `Numeral.Taker.numeral_eq`: trying the forms of a numeral in order finds the same.
-/
namespace JoinPlan.Numeral
open Text

/-- The text of some numeral. -/
def IsNumeral (u : List Char) : Prop := ∃ n : Numeral, n.WellFormed ∧ n.text = u

/-! ## Parts as far as they go -/

theorem takeDigits_append_digits {ds : List Char} (hd : ∀ c ∈ ds, c.isDigit = true)
    (t : List Char) : takeDigits (ds ++ t) = (ds ++ (takeDigits t).1, (takeDigits t).2) := by
  rw [takeDigits, List.takeWhile_append_of_pos hd, List.dropWhile_append_of_pos hd]
  rfl

theorem takeFraction_append_digits {f : List Char} (hf : IsDigits f) (t : List Char) :
    takeFraction ('.' :: (f ++ t)) = (some (f ++ (takeDigits t).1), (takeDigits t).2) := by
  obtain ⟨c, cs, rfl⟩ := List.exists_cons_of_ne_nil hf.1
  rw [takeFraction, takeDigits_append_digits hf.2]
  rfl

theorem takeExponent_append_digits {x : Exponent} (hx : x.WellFormed) (t : List Char) :
    takeExponent (x.text ++ t) =
      (some ⟨x.mark, x.sign, x.digits ++ (takeDigits t).1⟩, (takeDigits t).2) := by
  obtain ⟨mark, sign, digits⟩ := x
  obtain ⟨hmark, hsign, hdigits⟩ := hx
  simp only at hmark hsign hdigits
  have hmark' : mark = 'e' ∨ mark = 'E' := by simpa [isMark] using hmark
  have hstart := hdigits.startsWith_isSign t
  obtain ⟨c, cs, rfl⟩ := List.exists_cons_of_ne_nil hdigits.1
  simp only [Exponent.text, List.cons_append (a := mark), List.append_assoc, takeExponent, hmark',
    ↓reduceIte, takeSign_append hsign hstart, takeDigits_append_digits hdigits.2]
  rfl

/-! ## What is left -/

theorem takeDigits_suffix (s : List Char) : (takeDigits s).2 <:+ s :=
  ⟨_, takeDigits_text s⟩

theorem takeFraction_suffix (s : List Char) : (takeFraction s).2 <:+ s :=
  ⟨_, takeFraction_text s⟩

theorem takeExponent_suffix (s : List Char) : (takeExponent s).2 <:+ s :=
  ⟨_, takeExponent_text s⟩

/-- Behind an exponent, or where there is none, no more than `t` is left of what stands in front of
`t`. -/
theorem takeExponent_rest {o : Option Exponent} (ho : ∀ x ∈ o, x.WellFormed) (t : List Char) :
    (takeExponent (o.elim [] Exponent.text ++ t)).2 <:+ t := by
  cases o with
  | none => exact takeExponent_suffix t
  | some x =>
    rw [Option.elim_some, takeExponent_append_digits (ho x rfl)]
    exact takeDigits_suffix t

theorem takeFraction_rest {o : Option (List Char)} (ho : ∀ f ∈ o, IsDigits f) (t : List Char) :
    (takeFraction (o.elim [] ('.' :: ·) ++ t)).2 <:+ t := by
  cases o with
  | none => exact takeFraction_suffix t
  | some f =>
    rw [Option.elim_some, List.cons_append, takeFraction_append_digits (ho f rfl)]
    exact takeDigits_suffix t

variable {n : Numeral} {s rest : List Char}

/-- What is left behind digits, fraction and exponent, each taken as far as it goes, lies behind
those of any numeral in front of the text. -/
theorem WellFormed.rest_suffix (hn : n.WellFormed) (t : List Char) :
    (takeExponent (takeFraction (takeDigits (n.whole ++ (n.fraction.elim [] ('.' :: ·) ++
      (n.exponent.elim [] Exponent.text ++ t)))).2).2).2 <:+ t := by
  obtain ⟨sign, whole, fraction, exponent⟩ := n
  obtain ⟨-, hwhole, hfraction, hexponent, -⟩ := hn
  simp only at hwhole hfraction hexponent ⊢
  cases exponent with
  | some x =>
    -- the mark stops both the digits and the fraction, so the exponent is reached as it is
    have hmark := (hexponent x rfl).mark
    have hdigit : startsWith Char.isDigit (x.text ++ t) = false := not_isDigit_of_isMark hmark
    have hpoint : startsWith (· = '.') (x.text ++ t) = false := by
      cases hp : decide (x.mark = '.') with
      | false => exact hp
      | true =>
        rw [of_decide_eq_true hp] at hmark
        cases hmark
    have hafter : startsWith Char.isDigit (fraction.elim [] ('.' :: ·) ++ (x.text ++ t)) = false := by
      cases fraction with
      | none => exact hdigit
      | some f => rfl
    rw [Option.elim_some, takeDigits_append hwhole hafter,
      takeFraction_append hfraction hdigit hpoint]
    exact takeExponent_rest hexponent t
  | none =>
    refine (takeExponent_suffix _).trans ?_
    cases fraction with
    | some f =>
      rw [takeDigits_append hwhole rfl]
      exact takeFraction_rest hfraction t
    | none =>
      refine (takeFraction_suffix _).trans ?_
      change (takeDigits (whole ++ t)).2 <:+ t
      rw [takeDigits_append_digits hwhole]
      exact takeDigits_suffix t

theorem WellFormed.takes_digit (hn : n.WellFormed) (t : List Char) :
    ¬ ((takeDigits (n.whole ++ (n.fraction.elim [] ('.' :: ·) ++ t))).1 = [] ∧
      (takeFraction (takeDigits (n.whole ++ (n.fraction.elim [] ('.' :: ·) ++ t))).2).1 = none) := by
  obtain ⟨sign, whole, fraction, exponent⟩ := n
  obtain ⟨-, hwhole, hfraction, -, hne⟩ := hn
  simp only at hwhole hfraction hne ⊢
  rintro ⟨hdigits, hnone⟩
  cases whole with
  | cons c cs =>
    rw [takeDigits_append_digits hwhole] at hdigits
    cases hdigits
  | nil =>
    obtain ⟨f, rfl⟩ := Option.ne_none_iff_exists'.1 (hne.resolve_left (by simp))
    rw [Option.elim_some, takeDigits_append hwhole rfl, List.cons_append,
      takeFraction_append_digits (hfraction f rfl)] at hnone
    cases hnone

/-- **Longest.** In front of any text that starts with a numeral something is scanned, and what is left
lies behind that numeral. -/
theorem WellFormed.exists_scan? (hn : n.WellFormed) (t : List Char) :
    ∃ m rest, scan? (n.text ++ t) = some (m, rest) ∧ rest <:+ t := by
  have hsuffix := hn.rest_suffix t
  have hdigit := hn.takes_digit (n.exponent.elim [] Exponent.text ++ t)
  have hsign := takeSign_append hn.sign (hn.startsWith_isSign (n.exponent.elim [] Exponent.text ++ t))
  simp only [scan?, text, List.append_assoc, hsign, if_neg hdigit]
  exact ⟨_, _, rfl, hsuffix⟩

/-- A text is that of one numeral at most. -/
theorem WellFormed.text_injective {m : Numeral} (hm : m.WellFormed) (hn : n.WellFormed)
    (h : m.text = n.text) : m = n := by
  have hscan := scan?_append hm (startsWith_nil goesOn)
  rw [h, scan?_append hn (startsWith_nil goesOn)] at hscan
  cases hscan
  rfl

theorem scan?_eq_none_iff : scan? s = none ↔ ∀ u, u <+: s → ¬ IsNumeral u := by
  constructor
  · rintro h _ ⟨t, rfl⟩ ⟨n, hn, rfl⟩
    obtain ⟨m, rest, hscan, -⟩ := hn.exists_scan? t
    rw [h] at hscan
    cases hscan
  · intro h
    cases hscan : scan? s with
    | none => rfl
    | some r =>
      obtain ⟨n, rest⟩ := r
      exact absurd ⟨n, scan?_wellFormed hscan, rfl⟩ (h n.text ⟨rest, scan?_text hscan⟩)

theorem scan?_eq_some_iff : scan? s = some (n, rest) ↔
    n.WellFormed ∧ n.text ++ rest = s ∧
      ∀ u, u <+: s → IsNumeral u → u.length ≤ n.text.length := by
  constructor
  · intro h
    refine ⟨scan?_wellFormed h, scan?_text h, ?_⟩
    rintro _ ⟨t, rfl⟩ ⟨m, hm, rfl⟩
    obtain ⟨m', rest', hscan, hsuffix⟩ := hm.exists_scan? t
    rw [h] at hscan
    cases hscan
    have hlength := congrArg List.length (scan?_text h)
    have hle := hsuffix.length_le
    simp only [List.length_append] at hlength
    omega
  · rintro ⟨hn, rfl, hlongest⟩
    obtain ⟨m, rest', hscan, hsuffix⟩ := hn.exists_scan? rest
    have htext := scan?_text hscan
    have hm := scan?_wellFormed hscan
    have hle := hlongest m.text ⟨rest', htext⟩ ⟨m, hm, rfl⟩
    have hlength := congrArg List.length htext
    simp only [List.length_append] at hlength
    obtain rfl : rest' = rest := hsuffix.eq_of_length_le (by omega)
    rw [hscan, hm.text_injective hn (List.append_cancel_right htext)]

/-! ## Alternatives in order -/

/-- Takes something from the front of a text, and hands on what is left. -/
def Taker := List Char → Option (List Char × List Char)

namespace Taker

def one (p : Char → Bool) : Taker
  | c :: s => if p c then some ([c], s) else none
  | [] => none

/-- All digits that there are, and at least one. -/
def digits : Taker := fun s => if (takeDigits s).1 = [] then none else some (takeDigits s)

/-- What `p` takes and then what `q` takes. -/
def followedBy (p q : Taker) : Taker := fun s =>
  match p s with
  | none => none
  | some (u, t) => (q t).map fun (v, rest) => (u ++ v, rest)

/-- What `p` takes, or what `q` takes where `p` takes nothing. What comes next has no part in the
choice. -/
def orElse (p q : Taker) : Taker := fun s => (p s).or (q s)

/-- What `p` takes, or nothing. -/
def perhaps (p : Taker) : Taker := fun s => some ((p s).getD ([], s))

/-- `'.' D+` -/
def fraction : Taker := (one (· = '.')).followedBy digits

/-- `D+ '.' D+`, or else `'.' D+`, or else `D+` -/
def mantissa : Taker := (digits.followedBy fraction).orElse (fraction.orElse digits)

/-- `[eE] [+-]? D+` -/
def exponent : Taker := (one isMark).followedBy ((perhaps (one isSign)).followedBy digits)

/-- A sign or none, a mantissa, and an exponent or none. mirrors `parse_numeric_literal` -/
def numeral : Taker := (perhaps (one isSign)).followedBy (mantissa.followedBy (perhaps exponent))

theorem followedBy_of_some {p : Taker} {s u t : List Char} (h : p s = some (u, t)) (q : Taker) :
    p.followedBy q s = (q t).map fun r => (u ++ r.1, r.2) := by
  rw [followedBy, h]

theorem followedBy_of_none {p : Taker} {s : List Char} (h : p s = none) (q : Taker) :
    p.followedBy q s = none := by
  rw [followedBy, h]

theorem perhaps_sign (s : List Char) :
    perhaps (one isSign) s = some ((takeSign s).1.toList, (takeSign s).2) := by
  cases s with
  | nil => rfl
  | cons c s => by_cases hc : c = '+' ∨ c = '-' <;> simp [perhaps, one, isSign, takeSign, hc]

theorem digits_of_nil {s t : List Char} (h : takeDigits s = ([], t)) : digits s = none := by
  rw [digits, h, if_pos rfl]

theorem digits_of_cons {s t ds : List Char} {d : Char} (h : takeDigits s = (d :: ds, t)) :
    digits s = some (d :: ds, t) := by
  rw [digits, h, if_neg (List.cons_ne_nil d ds)]

theorem fraction_eq (s : List Char) :
    fraction s = (takeFraction s).1.map fun f => ('.' :: f, (takeFraction s).2) := by
  unfold takeFraction
  split
  · rename_i s
    have hpoint : one (· = '.') ('.' :: s) = some (['.'], s) := rfl
    rw [fraction, followedBy_of_some hpoint]
    cases h : takeDigits s with
    | mk ds t =>
      cases ds with
      | nil => rw [digits_of_nil h]; rfl
      | cons d ds => rw [digits_of_cons h]; rfl
  · rename_i hpoint
    refine followedBy_of_none ?_ _
    cases s with
    | nil => rfl
    | cons c s =>
      have hc : c ≠ '.' := fun h => hpoint s (by rw [h])
      simp [one, hc]

/-- Where no fraction is taken, nothing is. -/
theorem takeFraction_of_none {s : List Char} (h : (takeFraction s).1 = none) :
    (takeFraction s).2 = s := by
  have htext := takeFraction_text s
  rwa [h] at htext

theorem fraction_of_digits {s t ds : List Char} {d : Char} (h : takeDigits s = (d :: ds, t)) :
    fraction s = none := by
  have htext := takeDigits_text s
  have hdigit := takeDigits_isDigit s d (by rw [h]; exact List.mem_cons_self)
  rw [h] at htext
  rw [← htext]
  refine followedBy_of_none ?_ _
  have hd : d ≠ '.' := by
    rintro rfl
    cases hdigit
  simp [one, hd]

theorem mantissa_eq (s : List Char) :
    mantissa s =
      if (takeDigits s).1 = [] ∧ (takeFraction (takeDigits s).2).1 = none then none
      else some ((takeDigits s).1 ++ (takeFraction (takeDigits s).2).1.elim [] ('.' :: ·),
        (takeFraction (takeDigits s).2).2) := by
  cases h : takeDigits s with
  | mk ds t =>
    cases ds with
    | nil =>
      -- only the second alternative may take something, and there are no digits in front of it
      have htext := takeDigits_text s
      rw [h] at htext
      obtain rfl : t = s := htext
      rw [mantissa, orElse, orElse, followedBy_of_none (digits_of_nil h), digits_of_nil h,
        Option.none_or, Option.or_none, fraction_eq]
      cases (takeFraction t).1 <;> simp
    | cons d ds =>
      -- the first alternative, or else the last one, as there is no point in front
      rw [mantissa, orElse, orElse, followedBy_of_some (digits_of_cons h), fraction_of_digits h,
        digits_of_cons h, Option.none_or, fraction_eq]
      cases hf : (takeFraction t).1 with
      | none => simp [takeFraction_of_none hf]
      | some f => simp

theorem exponent_eq (s : List Char) : perhaps exponent s =
    some ((takeExponent s).1.elim [] Exponent.text, (takeExponent s).2) := by
  cases s with
  | nil => rfl
  | cons mark s =>
    by_cases hmark : mark = 'e' ∨ mark = 'E'
    · have hone : one isMark (mark :: s) = some ([mark], s) := by simp [one, isMark, hmark]
      simp only [takeExponent, hmark, ↓reduceIte]
      rw [perhaps, exponent, followedBy_of_some hone, followedBy_of_some (perhaps_sign s)]
      cases h : takeDigits (takeSign s).2 with
      | mk ds t =>
        cases ds with
        | nil => rw [digits_of_nil h]; rfl
        | cons d ds => rw [digits_of_cons h]; rfl
    · have hone : one isMark (mark :: s) = none := by simp [one, isMark, hmark]
      simp only [takeExponent, hmark, ↓reduceIte]
      rw [perhaps, exponent, followedBy_of_none hone]
      rfl

/-- **Alternatives.** Trying the three forms of a mantissa in order, with no way back, finds what is
scanned. -/
theorem numeral_eq (s : List Char) :
    numeral s = (scan? s).map fun r => (r.1.text, r.2) := by
  rw [numeral, followedBy_of_some (perhaps_sign s)]
  simp only [scan?]
  split
  · rename_i h
    have hnone : mantissa (takeSign s).2 = none := by rw [mantissa_eq, if_pos h]
    rw [followedBy_of_none hnone]
    rfl
  · rename_i h
    have hsome := mantissa_eq (takeSign s).2
    rw [if_neg h] at hsome
    rw [followedBy_of_some hsome, exponent_eq]
    simp [text]

end Taker
end JoinPlan.Numeral
