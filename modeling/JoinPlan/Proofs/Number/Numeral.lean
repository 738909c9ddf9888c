import JoinPlan.Number.Numeral
import JoinPlan.Proofs.Number.Nearest
import JoinPlan.Proofs.Text.Start
/-!
# The form and the value of numerals

`Numeral.WellFormed` states which records are numerals: an optional sign, digits with at most one
point, at least one digit behind a point, and an optional exponent with at least one digit. What is
scanned is well formed, and a well-formed numeral is scanned as it is, provided that it does not go
on in the text behind it. A numeral stands for a rational number, and reading it rounds that number.

Results:
* `Numeral.scan?_wellFormed`: what is scanned is a numeral.
* `Numeral.scan?_append`: every numeral is found again.
* `Numeral.scan?_eq_none`: a numeral is recognised by its first character.
* `Numeral.toBinary64_eq_finite_iff`: what reading a numeral gives.
-/
namespace JoinPlan.Numeral
open Text

def isSign (c : Char) : Bool := c = '+' || c = '-'

def isMark (c : Char) : Bool := c = 'e' || c = 'E'

/-- At least one digit, and digits only. -/
def IsDigits (s : List Char) : Prop := s ≠ [] ∧ ∀ c ∈ s, c.isDigit = true

/-- `[eE] [+-]? D+` -/
structure Exponent.WellFormed (e : Exponent) : Prop where
  mark : isMark e.mark = true
  sign : ∀ c ∈ e.sign, isSign c = true
  digits : IsDigits e.digits

/-- `[+-]? (D+ '.' D+ | '.' D+ | D+)` and an exponent or none. -/
structure WellFormed (n : Numeral) : Prop where
  sign : ∀ c ∈ n.sign, isSign c = true
  whole : ∀ c ∈ n.whole, c.isDigit = true
  fraction : ∀ f ∈ n.fraction, IsDigits f
  exponent : ∀ e ∈ n.exponent, e.WellFormed
  nonempty : n.whole ≠ [] ∨ n.fraction ≠ none

/-- The characters with which a numeral may go on. -/
def goesOn (c : Char) : Bool := c.isDigit || c = '.' || isMark c

theorem not_isDigit_of_isSign {c : Char} (h : isSign c = true) : c.isDigit = false := by
  simp only [isSign, Bool.or_eq_true, decide_eq_true_eq] at h
  rcases h with rfl | rfl <;> decide

theorem not_isDigit_of_isMark {c : Char} (h : isMark c = true) : c.isDigit = false := by
  simp only [isMark, Bool.or_eq_true, decide_eq_true_eq] at h
  rcases h with rfl | rfl <;> decide

/-- A sign is not the first of some digits. -/
theorem IsDigits.startsWith_isSign {ds : List Char} (hd : IsDigits ds) (t : List Char) :
    startsWith isSign (ds ++ t) = false := by
  obtain ⟨c, cs, rfl⟩ := List.exists_cons_of_ne_nil hd.1
  rw [List.cons_append, startsWith_cons]
  cases hc : isSign c with
  | false => rfl
  | true =>
    have hdigit := hd.2 c (by simp)
    rw [not_isDigit_of_isSign hc] at hdigit
    cases hdigit

/-- No sign stands behind the sign of a numeral. -/
theorem WellFormed.startsWith_isSign {n : Numeral} (hn : n.WellFormed) (t : List Char) :
    startsWith isSign (n.whole ++ (n.fraction.elim [] ('.' :: ·) ++ t)) = false := by
  cases hw : n.whole with
  | cons c cs =>
    have hd : IsDigits (c :: cs) := ⟨List.cons_ne_nil c cs, hw ▸ hn.whole⟩
    exact hd.startsWith_isSign _
  | nil =>
    obtain ⟨f, hf⟩ := Option.ne_none_iff_exists'.1 (hn.nonempty.resolve_left (by simp [hw]))
    rw [hf]
    rfl

/-! ## What is scanned -/

theorem takeSign_isSign (s : List Char) : ∀ c ∈ (takeSign s).1, isSign c = true := by
  cases s with
  | nil => simp [takeSign]
  | cons d s =>
    simp only [takeSign]
    split
    · rename_i h; simpa [isSign] using h
    · simp

theorem takeDigits_isDigit (s : List Char) : ∀ c ∈ (takeDigits s).1, c.isDigit = true :=
  fun _ hc => List.mem_takeWhile_imp hc

theorem takeFraction_isDigits (s : List Char) : ∀ f ∈ (takeFraction s).1, IsDigits f := by
  unfold takeFraction
  split
  · rename_i s
    split
    · simp
    · rename_i digits rest hne he
      have hd := takeDigits_isDigit s
      rw [he] at hd
      simp only [Option.mem_some_iff, forall_eq']
      exact ⟨hne, hd⟩
  · simp

theorem takeExponent_wellFormed (s : List Char) : ∀ e ∈ (takeExponent s).1, e.WellFormed := by
  cases s with
  | nil => simp [takeExponent]
  | cons mark s =>
    simp only [takeExponent]
    split
    · rename_i hm
      split
      · simp
      · rename_i digits rest hne he
        have hd := takeDigits_isDigit (takeSign s).2
        rw [he] at hd
        simp only [Option.mem_some_iff, forall_eq']
        exact ⟨by simpa [isMark] using hm, takeSign_isSign s, hne, hd⟩
    · simp

/-- **Soundness.** What is scanned is a numeral. -/
theorem scan?_wellFormed {s rest : List Char} {n : Numeral} (h : scan? s = some (n, rest)) :
    n.WellFormed := by
  simp only [scan?] at h
  split at h
  · cases h
  · rename_i hne
    simp only [Option.some.injEq, Prod.mk.injEq] at h
    obtain ⟨rfl, rfl⟩ := h
    exact ⟨takeSign_isSign _, takeDigits_isDigit _, takeFraction_isDigits _,
      takeExponent_wellFormed _, not_and_or.1 hne⟩

/-! ## What is found again -/

theorem takeSign_append {o : Option Char} (ho : ∀ c ∈ o, isSign c = true) {t : List Char}
    (ht : startsWith isSign t = false) : takeSign (o.toList ++ t) = (o, t) := by
  cases o with
  | some c =>
    have hc : c = '+' ∨ c = '-' := by simpa [isSign] using ho c rfl
    simp [takeSign, hc]
  | none =>
    cases t with
    | nil => rfl
    | cons d t =>
      have hd : ¬ (d = '+' ∨ d = '-') := by simpa [isSign] using ht
      simp [takeSign, hd]

theorem takeDigits_append {ds t : List Char} (hd : ∀ c ∈ ds, c.isDigit = true)
    (ht : startsWith Char.isDigit t = false) : takeDigits (ds ++ t) = (ds, t) := by
  rw [takeDigits, takeWhile_append_of_stop hd ht, dropWhile_append_of_stop hd ht]

theorem takeFraction_append {o : Option (List Char)} (ho : ∀ f ∈ o, IsDigits f) {t : List Char}
    (hd : startsWith Char.isDigit t = false) (hp : startsWith (· = '.') t = false) :
    takeFraction (o.elim [] ('.' :: ·) ++ t) = (o, t) := by
  cases o with
  | some f =>
    obtain ⟨hne, hf⟩ := ho f rfl
    obtain ⟨d, ds, rfl⟩ := List.exists_cons_of_ne_nil hne
    simp only [Option.elim_some, List.cons_append, takeFraction]
    rw [← List.cons_append, takeDigits_append hf hd]
  | none =>
    simp only [Option.elim_none, List.nil_append, takeFraction]
    split
    · simp at hp
    · rfl

theorem takeExponent_append {o : Option Exponent} (ho : ∀ e ∈ o, e.WellFormed) {t : List Char}
    (hd : startsWith Char.isDigit t = false) (hm : startsWith isMark t = false) :
    takeExponent (o.elim [] Exponent.text ++ t) = (o, t) := by
  cases o with
  | some e =>
    obtain ⟨hmark, hsign, hdigits⟩ := ho e rfl
    have hmark' : e.mark = 'e' ∨ e.mark = 'E' := by simpa [isMark] using hmark
    have hstart := hdigits.startsWith_isSign t
    obtain ⟨hne, hdigits⟩ := hdigits
    simp only [Option.elim_some, Exponent.text, List.cons_append, List.append_assoc, takeExponent,
      hmark', ↓reduceIte, takeSign_append hsign hstart, takeDigits_append hdigits hd]
  | none =>
    cases t with
    | nil => rfl
    | cons d t =>
      have hd' : ¬ (d = 'e' ∨ d = 'E') := by simpa [isMark] using hm
      simp [takeExponent, hd']

/-- What stands behind the digits of a numeral does not start with a digit or a point. -/
theorem exponent_startsWith {o : Option Exponent} (ho : ∀ e ∈ o, e.WellFormed) {t : List Char}
    (ht : startsWith goesOn t = false) {p : Char → Bool}
    (hp : ∀ c, p c = true → goesOn c = true ∧ isMark c = false) :
    startsWith p (o.elim [] Exponent.text ++ t) = false := by
  cases o with
  | none => exact startsWith_eq_false_of_imp (fun c hc => (hp c hc).1) ht
  | some e =>
    simp only [Option.elim_some, Exponent.text, List.cons_append, startsWith_cons]
    cases hc : p e.mark with
    | false => rfl
    | true =>
      have := (ho e rfl).mark
      rw [(hp _ hc).2] at this; cases this

theorem isDigit_goesOn (c : Char) (h : c.isDigit = true) : goesOn c = true ∧ isMark c = false := by
  refine ⟨by simp [goesOn, h], ?_⟩
  cases hm : isMark c with
  | false => rfl
  | true => rw [not_isDigit_of_isMark hm] at h; cases h

theorem point_goesOn (c : Char) (h : decide (c = '.') = true) :
    goesOn c = true ∧ isMark c = false := by
  obtain rfl : c = '.' := by simpa using h
  decide

/-- **Completeness.** A numeral in front of a text with which it does not go on is scanned. -/
theorem scan?_append {n : Numeral} (hn : n.WellFormed) {rest : List Char}
    (hr : startsWith goesOn rest = false) : scan? (n.text ++ rest) = some (n, rest) := by
  have hfirst := hn.startsWith_isSign (n.exponent.elim [] Exponent.text ++ rest)
  obtain ⟨sign, whole, fraction, exponent⟩ := n
  obtain ⟨hsign, hwhole, hfraction, hexponent, hne⟩ := hn
  simp only at hfirst hsign hwhole hfraction hexponent hne
  have hdigit := exponent_startsWith hexponent hr isDigit_goesOn
  have hpoint := exponent_startsWith hexponent hr point_goesOn
  have hmark : startsWith isMark rest = false :=
    startsWith_eq_false_of_imp (fun c hc => by simp [goesOn, hc]) hr
  have hdigit' : startsWith Char.isDigit rest = false :=
    startsWith_eq_false_of_imp (fun c hc => by simp [goesOn, hc]) hr
  have hafter : startsWith Char.isDigit
      (fraction.elim [] ('.' :: ·) ++ (exponent.elim [] Exponent.text ++ rest)) = false := by
    cases fraction with
    | none => exact hdigit
    | some f => rfl
  have hne' : ¬ (whole = [] ∧ fraction = none) := by
    rw [not_and_or]; exact hne
  simp only [scan?, text, List.append_assoc, takeSign_append hsign hfirst,
    takeDigits_append hwhole hafter, takeFraction_append hfraction hdigit hpoint,
    takeExponent_append hexponent hdigit' hmark, hne', ↓reduceIte]

/-! ## How numerals begin -/

/-- The characters with which a numeral begins. -/
def opens (c : Char) : Bool := isSign c || c.isDigit || c = '.'

theorem not_isSpacing_of_opens {c : Char} (h : opens c = true) : isSpacing c = false := by
  cases hs : isSpacing c with
  | false => rfl
  | true =>
    simp only [isSpacing, Bool.or_eq_true, decide_eq_true_eq] at hs
    rcases hs with ((rfl | rfl) | rfl) | rfl <;> revert h <;> decide

theorem not_opens_of_isAlpha {c : Char} (h : c.isAlpha = true) : opens c = false := by
  have hlow := (isAlpha_bounds h).1
  cases hc : opens c with
  | false => rfl
  | true =>
    simp only [opens, isSign, Char.isDigit, Bool.or_eq_true, Bool.and_eq_true,
      decide_eq_true_eq, ge_iff_le, UInt32.le_iff_toNat_le] at hc
    rcases hc with ((rfl | rfl) | ⟨-, hhigh⟩) | rfl
    · cases h
    · cases h
    · change c.toNat ≤ 57 at hhigh
      omega
    · cases h

theorem WellFormed.startsWith_text {n : Numeral} (hn : n.WellFormed) :
    ∃ c u, n.text = c :: u ∧ opens c = true := by
  obtain ⟨sign, whole, fraction, exponent⟩ := n
  obtain ⟨hsign, hwhole, -, -, hne⟩ := hn
  simp only at hsign hwhole hne
  cases sign with
  | some c => exact ⟨c, _, rfl, by simp [opens, hsign c rfl]⟩
  | none =>
    cases whole with
    | cons d ds => exact ⟨d, _, rfl, by simp [opens, hwhole d (by simp)]⟩
    | nil =>
      obtain ⟨f, rfl⟩ := Option.ne_none_iff_exists'.1 (hne.resolve_left (by simp))
      exact ⟨'.', _, rfl, rfl⟩

theorem scan?_eq_none {s : List Char} (h : startsWith opens s = false) : scan? s = none := by
  cases s with
  | nil => rfl
  | cons c s =>
    simp only [startsWith_cons, opens, isSign, Bool.or_eq_false_iff, decide_eq_false_iff_not] at h
    obtain ⟨⟨hsign, hdigit⟩, hpoint⟩ := h
    have hfraction : takeFraction (c :: s) = (none, c :: s) := by
      unfold takeFraction
      split
      · rename_i e; cases e; exact absurd rfl hpoint
      · rfl
    simp [scan?, takeSign, takeDigits, hsign, hdigit, hfraction]

/-! ## Value -/

/-- The number that a numeral stands for, apart from its sign. -/
def absValue (n : Numeral) : ℚ :=
  digitsValue (n.whole ++ n.fraction.getD []) * 10 ^ (n.scale - (n.fraction.getD []).length)

theorem toBinary64_eq_finite_iff {n : Numeral} {negative : Bool} {x : Magnitude} :
    n.toBinary64 = .finite negative x ↔
      n.isNegative = negative ∧ Magnitude.Nearest n.absValue x := by
  rw [absValue, ← Magnitude.ofDecimal?_eq_some_iff]
  simp only [toBinary64, Binary64.ofDecimal]
  split
  · rename_i y h
    simp [h]
  · rename_i h
    simp [h]

theorem digitsValue_append (s t : List Char) :
    digitsValue (s ++ t) = 10 ^ t.length * digitsValue s + digitsValue t := by
  rw [digitsValue, digitsValue, digitsValue, Nat.ofDigitChars_append,
    Nat.ofDigitChars_eq_ofDigitChars_zero]

theorem digitsValue_zeros (k : Nat) : digitsValue (List.replicate k '0') = 0 := by
  rw [digitsValue, Nat.ofDigitChars_replicate_zero, Nat.mul_zero]

theorem digitsValue_toDigits (n : Nat) : digitsValue (Nat.toDigits 10 n) = n :=
  Nat.ofDigitChars_ten_toDigits

theorem isDigits_toDigits (n : Nat) : IsDigits (Nat.toDigits 10 n) :=
  ⟨Nat.toDigits_ne_nil, fun _ hc => Nat.isDigit_of_mem_toDigits (by decide) (by decide) hc⟩

theorem isDigits_zero : IsDigits ['0'] :=
  ⟨by simp, List.forall_mem_singleton.2 rfl⟩

theorem wellFormed_ofInt (i : Int) : (ofInt i).WellFormed := by
  have hd := isDigits_toDigits i.natAbs
  refine ⟨?_, hd.2, by simp [ofInt], by simp [ofInt], .inl hd.1⟩
  simp only [ofInt]
  split <;> simp [isSign]

end JoinPlan.Numeral
