import Mathlib.Data.List.TakeWhile
import JoinPlan.Text.Space
/-!
# How a text starts

A reader that takes characters of a class stops in front of the first one outside of it. What it
takes from `u ++ r`, where `u` lies in the class, is settled by how `r` starts.

Results:
* `takeWhile_append_of_stop`, `dropWhile_append_of_stop`: a run of a class is taken whole, and
  nothing behind it.
* `startsWith_dropWhile`: what is left does not start with the class.
* `skipSpacing_append_of_all`, `startsWith_skipSpacing`: the same for spacing.
* `trim_eq_nil_iff`: only blank texts are trimmed to nothing.
-/
namespace JoinPlan.Text

/-- Whether the first character of a text is in a class. -/
def startsWith (p : Char → Bool) : List Char → Bool
  | [] => false
  | c :: _ => p c

@[simp] theorem startsWith_nil (p : Char → Bool) : startsWith p [] = false := rfl

@[simp] theorem startsWith_cons (p : Char → Bool) (c : Char) (s : List Char) :
    startsWith p (c :: s) = p c := rfl

/-- A text that starts outside of a class starts outside of every smaller one. -/
theorem startsWith_eq_false_of_imp {p q : Char → Bool} (h : ∀ c, q c = true → p c = true)
    {s : List Char} (hs : startsWith p s = false) : startsWith q s = false := by
  cases s with
  | nil => rfl
  | cons c s =>
    rw [startsWith_cons] at hs ⊢
    cases hq : q c with
    | false => rfl
    | true => rw [h c hq] at hs; cases hs

theorem takeWhile_append_of_stop {p : Char → Bool} {u r : List Char} (hu : ∀ c ∈ u, p c = true)
    (hr : startsWith p r = false) : (u ++ r).takeWhile p = u := by
  rw [List.takeWhile_append_of_pos hu]
  cases r with
  | nil => simp
  | cons c r => rw [startsWith_cons] at hr; simp [hr]

theorem dropWhile_append_of_stop {p : Char → Bool} {u r : List Char} (hu : ∀ c ∈ u, p c = true)
    (hr : startsWith p r = false) : (u ++ r).dropWhile p = r := by
  rw [List.dropWhile_append_of_pos hu]
  cases r with
  | nil => rfl
  | cons c r => rw [startsWith_cons] at hr; simp [hr]

theorem startsWith_dropWhile (p : Char → Bool) (s : List Char) :
    startsWith p (s.dropWhile p) = false := by
  induction s with
  | nil => rfl
  | cons c s ih =>
    rw [List.dropWhile_cons]
    split
    · exact ih
    · rename_i h; simpa using h

/-! ## Spacing -/

/-- A run of spacing, possibly empty. -/
def AllSpacing (s : List Char) : Prop := ∀ c ∈ s, isSpacing c = true

theorem allSpacing_nil : AllSpacing [] := by simp [AllSpacing]

theorem allSpacing_space : AllSpacing [' '] := by simp [AllSpacing, isSpacing]

theorem AllSpacing.append {s t : List Char} (hs : AllSpacing s) (ht : AllSpacing t) :
    AllSpacing (s ++ t) := by
  intro c hc
  exact (List.mem_append.1 hc).elim (hs c) (ht c)

/-- No spacing stands in front of a text that does not start with spacing. -/
theorem AllSpacing.eq_nil {w s : List Char} (hw : AllSpacing w)
    (h : startsWith isSpacing (w ++ s) = false) : w = [] := by
  cases w with
  | nil => rfl
  | cons c w => rw [List.cons_append, startsWith_cons, hw c (by simp)] at h; cases h

theorem startsWith_skipSpacing (s : List Char) : startsWith isSpacing (skipSpacing s) = false :=
  startsWith_dropWhile isSpacing s

theorem skipSpacing_append_of_all {w : List Char} (hw : AllSpacing w) (s : List Char) :
    skipSpacing (w ++ s) = skipSpacing s :=
  List.dropWhile_append_of_pos hw

theorem skipSpacing_eq_self {s : List Char} (h : startsWith isSpacing s = false) :
    skipSpacing s = s := by
  have := dropWhile_append_of_stop (u := []) (by simp) h
  exact this

/-- A text is a run of spacing and what skipping leaves. -/
theorem exists_spacing (s : List Char) : ∃ w, AllSpacing w ∧ s = w ++ skipSpacing s :=
  ⟨s.takeWhile isSpacing, fun _ hc => List.mem_takeWhile_imp hc, (skipSpacing_append s).symm⟩

/-! ## Letters -/

theorem isAlpha_iff {c : Char} : c.isAlpha = true ↔
    (0x41 ≤ c.toNat ∧ c.toNat ≤ 0x5A) ∨ (0x61 ≤ c.toNat ∧ c.toNat ≤ 0x7A) := by
  change (decide ('A'.val ≤ c.val ∧ c.val ≤ 'Z'.val) ||
    (decide ('a'.val ≤ c.val) && decide (c.val ≤ 'z'.val))) = true ↔ _
  simp only [Bool.or_eq_true, Bool.and_eq_true, decide_eq_true_eq, UInt32.le_iff_toNat_le]
  exact Iff.rfl

theorem isAlpha_bounds {c : Char} (h : c.isAlpha = true) : 0x41 ≤ c.toNat ∧ c.toNat ≤ 0x7A := by
  have := isAlpha_iff.1 h
  omega

theorem isAlpha_of_toLower {c : Char} (h : c.toLower.isAlpha = true) : c.isAlpha = true := by
  by_cases hu : 'A'.val ≤ c.val ∧ c.val ≤ 'Z'.val
  · exact isAlpha_iff.2 (.inl ⟨UInt32.le_iff_toNat_le.1 hu.1, UInt32.le_iff_toNat_le.1 hu.2⟩)
  · have hc : c.toLower = c := dif_neg hu
    rwa [hc] at h

/-! ## Blanks -/

theorem not_isBlank_of_isAlpha {c : Char} (h : c.isAlpha = true) : isBlank c = false :=
  inRanges_of_apart 0x41 0x7A (by decide) (isAlpha_bounds h).1 (isAlpha_bounds h).2

theorem not_isSpacing_of_isAlpha {c : Char} (h : c.isAlpha = true) : isSpacing c = false :=
  Bool.eq_false_iff.2 fun hs =>
    Bool.eq_false_iff.1 (not_isBlank_of_isAlpha h) (isBlank_of_isSpacing hs)

theorem trim_eq_nil_iff {s : List Char} : trim s = [] ↔ ∀ c ∈ s, isBlank c = true := by
  rw [trim, trimEnd, List.reverse_eq_nil_iff, List.dropWhile_eq_nil_iff, trimStart]
  constructor
  · intro h c hc
    rw [← List.takeWhile_append_dropWhile (p := isBlank) (l := s)] at hc
    rcases List.mem_append.1 hc with hc | hc
    · exact List.mem_takeWhile_imp hc
    · exact h c (List.mem_reverse.2 hc)
  · intro h c hc
    exact h c ((List.dropWhile_sublist isBlank).mem (List.mem_reverse.1 hc))

end JoinPlan.Text
