import Mathlib.Algebra.Order.Field.Power
import Mathlib.Tactic.FieldSimp
import Mathlib.Tactic.Linarith
import Mathlib.Tactic.Positivity
import Mathlib.Tactic.Ring
import JoinPlan.Number.Binary64
/-!
# Rounding to the nearest double

A magnitude stands for a rational number. `Magnitude.Nearest v x` says, without any arithmetic on
significands, that `x` is the double to which `v` is rounded: no double is nearer, of two equally
near ones `x` is the one with the even significand, and `v` lies below the point from which on
values are rounded to infinity. Rounding a ratio or a decimal computes exactly this.

Results:
* `Magnitude.value_injective`, `Magnitude.Nearest.unique`: a value has one magnitude, and at most
  one magnitude is the nearest.
* `Magnitude.ofRatio?_eq_some_iff`, `Magnitude.ofRatio?_eq_none_iff`: rounding a ratio.
* `Magnitude.ofDecimal?_eq_some_iff`, `Magnitude.ofDecimal?_eq_none_iff`: rounding a decimal; the
  bounds that are checked before a power of ten is computed change nothing.
-/
namespace JoinPlan.Magnitude

/-- The number that a magnitude stands for. -/
def value (x : Magnitude) : ℚ := x.significand * 2 ^ x.exponent

/-- Half a step above the largest double, `2 ^ 1024 - 2 ^ 970`. -/
def overflow : ℚ := (2 ^ 53 - 1 / 2) * 2 ^ (971 : ℤ)

/-- `v` is rounded to `x`: no double is nearer to `v`, a tie goes to the even significand, and `v`
is not rounded to infinity. -/
structure Nearest (v : ℚ) (x : Magnitude) : Prop where
  below : v < overflow
  le : ∀ y : Magnitude, |v - x.value| ≤ |v - y.value|
  even : ∀ y : Magnitude, y ≠ x → |v - y.value| = |v - x.value| → Even x.significand

/-! ## Powers -/

/-- An integer power as the quotient of two natural ones, of which one is `1`. -/
theorem zpow_eq_div (b : ℚ) (e : ℤ) : b ^ e = b ^ e.toNat / b ^ (-e).toNat := by
  rcases Int.le_total 0 e with h | h
  · rw [show (-e).toNat = 0 by omega, pow_zero, div_one, ← zpow_natCast, Int.toNat_of_nonneg h]
  · rw [show e.toNat = 0 by omega, pow_zero, one_div, ← zpow_natCast, ← zpow_neg,
      Int.toNat_of_nonneg (by omega), neg_neg]

theorem two_zpow_pos (e : ℤ) : (0 : ℚ) < 2 ^ e := by positivity

theorem two_zpow_le {a b : ℤ} (h : a ≤ b) : (2 : ℚ) ^ a ≤ 2 ^ b :=
  zpow_le_zpow_right₀ (by norm_num) h

theorem two_zpow_succ (e : ℤ) : (2 : ℚ) ^ (e + 1) = 2 * 2 ^ e := by
  rw [zpow_add₀ two_ne_zero, zpow_one, mul_comm]

theorem two_zpow_add_natCast (n : ℕ) (e : ℤ) : (2 : ℚ) ^ (n + e) = 2 ^ n * 2 ^ e := by
  rw [zpow_add₀ two_ne_zero, zpow_natCast]

/-! ## Values -/

theorem value_nonneg (x : Magnitude) : 0 ≤ x.value := by
  unfold value; positivity

theorem significand_lt (x : Magnitude) : (x.significand : ℚ) < 2 ^ 53 := by
  exact_mod_cast x.fits

theorem significand_le (x : Magnitude) : (x.significand : ℚ) ≤ 2 ^ 53 - 1 := by
  have h : ((x.significand + 1 : ℕ) : ℚ) ≤ (2 ^ 53 : ℕ) := Nat.cast_le.2 x.fits
  push_cast at h
  linarith

theorem value_lt (x : Magnitude) : x.value < 2 ^ (53 + x.exponent) := by
  rw [show (53 : ℤ) = (53 : ℕ) by rfl, two_zpow_add_natCast]
  exact mul_lt_mul_of_pos_right x.significand_lt (two_zpow_pos _)

theorem le_value {x : Magnitude} (h : -1074 < x.exponent) : 2 ^ (52 + x.exponent) ≤ x.value := by
  rw [show (52 : ℤ) = (52 : ℕ) by rfl, two_zpow_add_natCast]
  have hs : (2 : ℚ) ^ 52 ≤ x.significand := by
    exact_mod_cast x.normal.resolve_left (by omega)
  exact mul_le_mul_of_nonneg_right hs (two_zpow_pos _).le

/-- Magnitudes with different exponents lie on different sides of a power of two. -/
theorem binade_separates {x y : Magnitude} (h : x.exponent < y.exponent) :
    x.value < 2 ^ (52 + y.exponent) ∧ 2 ^ (52 + y.exponent) ≤ y.value := by
  refine ⟨lt_of_lt_of_le x.value_lt (two_zpow_le (by omega)), le_value ?_⟩
  have := x.inRange.1
  omega

theorem value_injective {x y : Magnitude} (h : x.value = y.value) : x = y := by
  rcases lt_trichotomy x.exponent y.exponent with hlt | heq | hlt
  · have := binade_separates hlt; linarith
  · refine ext ?_ heq
    unfold value at h
    rw [heq] at h
    exact_mod_cast mul_right_cancel₀ (two_zpow_pos _).ne' h
  · have := binade_separates hlt; linarith

/-- On the grid of an exponent that it reaches, a value is a whole number. -/
theorem value_eq_natCast_mul {x : Magnitude} {q : ℤ} (h : q ≤ x.exponent) :
    ∃ k : ℕ, x.value = k * 2 ^ q := by
  refine ⟨x.significand * 2 ^ (x.exponent - q).toNat, ?_⟩
  have e : x.exponent = (x.exponent - q).toNat + q := by omega
  rw [value, e, two_zpow_add_natCast]
  push_cast
  rw [show ((x.exponent - q).toNat + q - q).toNat = (x.exponent - q).toNat by omega]
  ring

/-- The values above `x` begin one step above it. -/
theorem step_le_of_lt {x y : Magnitude} (h : x.value < y.value) :
    x.value + 2 ^ x.exponent ≤ y.value := by
  rcases lt_or_ge y.exponent x.exponent with hlt | hle
  · have := binade_separates hlt; linarith
  · obtain ⟨k, hk⟩ := value_eq_natCast_mul hle
    have hp := two_zpow_pos x.exponent
    rw [hk, value] at h ⊢
    have hlt : (x.significand : ℚ) < k := lt_of_mul_lt_mul_right h hp.le
    have hle : (x.significand : ℚ) + 1 ≤ k := by exact_mod_cast hlt
    nlinarith

/-- The next magnitude of the same exponent, where an even significand leaves room for it. -/
def next (x : Magnitude) (h : Even x.significand) : Magnitude where
  significand := x.significand + 1
  exponent := x.exponent
  fits := by
    obtain ⟨k, hk⟩ := h
    have := x.fits
    simp only [Nat.pow_eq] at *
    omega
  inRange := x.inRange
  normal := x.normal.imp id fun h => by omega

theorem value_next (x : Magnitude) (h : Even x.significand) :
    (x.next h).value = x.value + 2 ^ x.exponent := by
  simp only [value, next]; push_cast; ring

/-! ## Uniqueness -/

namespace Nearest

/-- Two nearest magnitudes would both be even and have nothing between them. -/
theorem not_lt {v : ℚ} {x y : Magnitude} (hx : Nearest v x) (hy : Nearest v y) :
    ¬ x.value < y.value := by
  intro hlt
  have hne : y ≠ x := by rintro rfl; exact lt_irrefl _ hlt
  have hdist : |v - y.value| = |v - x.value| := le_antisymm (hy.le x) (hx.le y)
  have hxe := hx.even y hne hdist
  have hye := hy.even x hne.symm hdist.symm
  have hstep := step_le_of_lt hlt
  have hn := value_next x hxe
  have hp := two_zpow_pos x.exponent
  -- `v` lies halfway between the two values
  have hmid : v - x.value = y.value - v := by
    rcases abs_cases (v - y.value) with ⟨h1, _⟩ | ⟨h1, _⟩ <;>
      rcases abs_cases (v - x.value) with ⟨h2, _⟩ | ⟨h2, _⟩ <;> linarith
  rcases eq_or_lt_of_le hstep with heq | hbetween
  · have he : x.next hxe = y := value_injective (hn.trans heq)
    rw [← he] at hye
    exact (Nat.even_add_one.1 hye) hxe
  · have hnear := hx.le (x.next hxe)
    rw [hn, abs_of_nonneg (by linarith)] at hnear
    rcases abs_cases (v - (x.value + 2 ^ x.exponent)) with ⟨h1, _⟩ | ⟨h1, _⟩ <;> linarith

theorem unique {v : ℚ} {x y : Magnitude} (hx : Nearest v x) (hy : Nearest v y) : x = y := by
  rcases lt_trichotomy x.value y.value with h | h | h
  · exact absurd h (hx.not_lt hy)
  · exact value_injective h
  · exact absurd h (hy.not_lt hx)

/-- A double is the one nearest to its own value. -/
theorem self (x : Magnitude) : Nearest x.value x := by
  refine ⟨?_, fun y => by simp, fun y hne h => ?_⟩
  · have he : (2 : ℚ) ^ x.exponent ≤ 2 ^ (971 : ℤ) := two_zpow_le x.inRange.2
    calc x.value ≤ (2 ^ 53 - 1) * 2 ^ (971 : ℤ) := by
          unfold value; exact mul_le_mul x.significand_le he (two_zpow_pos _).le (by norm_num)
      _ < overflow := mul_lt_mul_of_pos_right (by norm_num) (two_zpow_pos _)
  · rw [sub_self, abs_zero, abs_eq_zero, sub_eq_zero] at h
    exact absurd (value_injective h).symm hne

end Nearest

/-! ## Rounding a ratio -/

/-- The comparison by which an order is found. -/
theorem mul_pow_le_mul_pow_iff {b den : ℕ} (num : ℕ) (hb : 0 < b) (hd : 0 < den) (e : ℤ) :
    den * Nat.pow b e.toNat ≤ num * Nat.pow b (-e).toNat ↔ (b : ℚ) ^ e ≤ num / den := by
  have hd' : (0 : ℚ) < den := by exact_mod_cast hd
  have hb' : (0 : ℚ) < (b : ℚ) ^ (-e).toNat := by positivity
  rw [zpow_eq_div, div_le_div_iff₀ hb' hd', ← Nat.cast_le (α := ℚ)]
  simp only [Nat.pow_eq]
  push_cast
  rw [mul_comm]

theorem binaryOrder_spec {num den : ℕ} (hn : 0 < num) (hd : 0 < den) :
    (2 : ℚ) ^ binaryOrder num den ≤ num / den ∧
      (num : ℚ) / den < 2 ^ (binaryOrder num den + 1) := by
  have hd' : (0 : ℚ) < den := by exact_mod_cast hd
  have n₁ : (2 : ℚ) ^ num.log2 ≤ num := by exact_mod_cast Nat.log2_self_le hn.ne'
  have n₂ : (num : ℚ) < 2 ^ (num.log2 + 1) := by exact_mod_cast Nat.lt_log2_self
  have d₁ : (2 : ℚ) ^ den.log2 ≤ den := by exact_mod_cast Nat.log2_self_le hd.ne'
  have d₂ : (den : ℚ) < 2 ^ (den.log2 + 1) := by exact_mod_cast Nat.lt_log2_self
  -- the difference of the logarithms is right or one too large
  have hlow : (2 : ℚ) ^ ((num.log2 : ℤ) - den.log2 - 1) ≤ num / den := by
    rw [le_div_iff₀ hd']
    calc (2 : ℚ) ^ ((num.log2 : ℤ) - den.log2 - 1) * den
        ≤ 2 ^ ((num.log2 : ℤ) - den.log2 - 1) * 2 ^ (den.log2 + 1) :=
          mul_le_mul_of_nonneg_left d₂.le (two_zpow_pos _).le
      _ = 2 ^ num.log2 := by
          rw [← zpow_natCast, ← zpow_natCast, ← zpow_add₀ two_ne_zero]
          congr 1; push_cast; ring
      _ ≤ num := n₁
  have hhigh : (num : ℚ) / den < 2 ^ ((num.log2 : ℤ) - den.log2 + 1) := by
    rw [div_lt_iff₀ hd']
    calc (num : ℚ) < 2 ^ (num.log2 + 1) := n₂
      _ = 2 ^ ((num.log2 : ℤ) - den.log2 + 1) * 2 ^ den.log2 := by
          rw [← zpow_natCast, ← zpow_natCast, ← zpow_add₀ two_ne_zero]
          congr 1; push_cast; ring
      _ ≤ 2 ^ ((num.log2 : ℤ) - den.log2 + 1) * den :=
          mul_le_mul_of_nonneg_left d₁ (two_zpow_pos _).le
  have hiff := mul_pow_le_mul_pow_iff num two_pos hd ((num.log2 : ℤ) - den.log2)
  simp only [binaryOrder, hiff]
  split
  · rename_i h
    exact ⟨by exact_mod_cast h, hhigh⟩
  · rename_i h
    exact ⟨hlow, by simpa using lt_of_not_ge h⟩

theorem two_mul_eq_of_div_eq_half {r den : ℕ} (hd : 0 < den) (h : (r : ℚ) / den = 1 / 2) :
    2 * r = den := by
  have hd' : (den : ℚ) ≠ 0 := by exact_mod_cast hd.ne'
  rw [div_eq_iff hd'] at h
  have : (2 : ℚ) * r = den := by linarith
  exact_mod_cast this

/-- Rounding to a whole number goes at most half a unit, and exactly half only to an even one. -/
theorem roundHalfEven_spec (num : ℕ) {den : ℕ} (hd : 0 < den) :
    |(num : ℚ) / den - roundHalfEven num den| ≤ 1 / 2 ∧
      (|(num : ℚ) / den - roundHalfEven num den| = 1 / 2 → Even (roundHalfEven num den)) := by
  have hd' : (0 : ℚ) < den := by exact_mod_cast hd
  have hdm : (den : ℚ) * (num / den : ℕ) + (num % den : ℕ) = num := by
    exact_mod_cast Nat.div_add_mod num den
  have hlt : ((num % den : ℕ) : ℚ) < den := by exact_mod_cast Nat.mod_lt num hd
  have hr : (0 : ℚ) ≤ (num % den : ℕ) := Nat.cast_nonneg _
  have hsplit : (num : ℚ) / den = (num / den : ℕ) + (num % den : ℕ) / den := by
    rw [← hdm]; field_simp
  have hr' : (0 : ℚ) ≤ (num % den : ℕ) / (den : ℚ) := by positivity
  simp only [roundHalfEven]
  split
  · rename_i h
    have hle : (num % den : ℕ) / (den : ℚ) ≤ 1 / 2 := by
      rw [div_le_iff₀ hd']
      have : ((2 * (num % den) : ℕ) : ℚ) ≤ den := by
        exact_mod_cast h.elim le_of_lt (fun h => h.1.le)
      push_cast at this; linarith
    rw [hsplit, add_sub_cancel_left, abs_of_nonneg hr']
    refine ⟨hle, fun he => ?_⟩
    have heq := two_mul_eq_of_div_eq_half hd he
    rcases h with h | h
    · omega
    · exact Nat.even_iff.2 h.2
  · rename_i h
    have hge : 1 / 2 ≤ (num % den : ℕ) / (den : ℚ) := by
      rw [le_div_iff₀ hd']
      have : den ≤ 2 * (num % den) := by omega
      have : (den : ℚ) ≤ (2 * (num % den) : ℕ) := by exact_mod_cast this
      push_cast at this; linarith
    have hle : (num % den : ℕ) / (den : ℚ) ≤ 1 := (div_le_one hd').2 hlt.le
    have habs : |(num : ℚ) / den - (num / den + 1 : ℕ)| = 1 - (num % den : ℕ) / (den : ℚ) := by
      rw [hsplit]; push_cast
      rw [abs_of_nonpos (by linarith)]; ring
    rw [habs]
    refine ⟨by linarith, fun he => ?_⟩
    have heq := two_mul_eq_of_div_eq_half hd (show (num % den : ℕ) / (den : ℚ) = 1 / 2 by linarith)
    exact Nat.even_add_one.2 fun hev => h (.inr ⟨heq, Nat.even_iff.1 hev⟩)

/-- A ratio on the grid of an exponent. -/
theorem scaled_ratio {b : ℕ} (hb : 0 < b) (num den : ℕ) (q : ℤ) :
    ((num * Nat.pow b (-q).toNat : ℕ) : ℚ) / (den * Nat.pow b q.toNat : ℕ) =
      num / den / (b : ℚ) ^ q := by
  have hb' : (0 : ℚ) < b := by exact_mod_cast hb
  have h₁ : (0 : ℚ) < (b : ℚ) ^ q.toNat := by positivity
  have h₂ : (0 : ℚ) < (b : ℚ) ^ (-q).toNat := by positivity
  rw [zpow_eq_div]
  simp only [Nat.pow_eq]
  push_cast
  field_simp

theorem of?_eq_some_iff {m : ℕ} {q : ℤ} {x : Magnitude} :
    of? m q = some x ↔ m = x.significand ∧ q = x.exponent := by
  constructor
  · intro h
    unfold of? at h
    split at h
    · cases h; exact ⟨rfl, rfl⟩
    · cases h
  · intro h
    obtain ⟨rfl, rfl⟩ := h
    exact of?_self x

/-- `v` lies on the grid `2 ^ q` within half a step of `m`, on half a step only if `m` is even. The
grid is the least one, or `v` needs all 53 bits of it. -/
structure Rounds (v : ℚ) (m : ℕ) (q : ℤ) : Prop where
  least : -1074 ≤ q
  full : q = -1074 ∨ (2 : ℚ) ^ 52 ≤ v / 2 ^ q
  fits : v / 2 ^ q < 2 ^ 53
  half : |v / 2 ^ q - m| ≤ 1 / 2
  even : |v / 2 ^ q - m| = 1 / 2 → Even m

theorem rounds_of_pos {num den : ℕ} (hn : 0 < num) (hd : 0 < den) {q : ℤ}
    (hq : q = max (-1074) (binaryOrder num den - 52)) :
    Rounds (num / den) (roundHalfEven (num * Nat.pow 2 (-q).toNat) (den * Nat.pow 2 q.toNat)) q := by
  obtain ⟨hlow, hhigh⟩ := binaryOrder_spec hn hd
  have hp : (0 : ℚ) < 2 ^ q := two_zpow_pos q
  have hden : 0 < den * Nat.pow 2 q.toNat := Nat.mul_pos hd (Nat.pow_pos two_pos)
  have hround := roundHalfEven_spec (num * Nat.pow 2 (-q).toNat) hden
  rw [scaled_ratio two_pos, Nat.cast_ofNat] at hround
  refine ⟨by omega, ?_, ?_, hround.1, hround.2⟩
  · rcases le_total (binaryOrder num den - 52) (-1074) with h | h
    · exact .inl (by omega)
    · right
      rw [le_div_iff₀ hp, ← zpow_natCast, ← zpow_add₀ two_ne_zero]
      exact le_trans (two_zpow_le (by push_cast; omega)) hlow
  · rw [div_lt_iff₀ hp, ← zpow_natCast, ← zpow_add₀ two_ne_zero]
    exact lt_of_lt_of_le hhigh (two_zpow_le (by push_cast; omega))

namespace Rounds

variable {v : ℚ} {m : ℕ} {q : ℤ}

theorem le_carry (h : Rounds v m q) : m ≤ 2 ^ 53 := by
  have h₁ := (abs_le.1 h.half).1
  have h₂ := h.fits
  have : (m : ℚ) < (2 ^ 53 + 1 : ℕ) := by push_cast; linarith
  exact Nat.lt_succ_iff.1 (by exact_mod_cast this)

theorem normal (h : Rounds v m q) : q = -1074 ∨ 2 ^ 52 ≤ m := by
  refine h.full.imp_right fun hf => ?_
  have h₁ := (abs_le.1 h.half).2
  have : ((2 ^ 52 : ℕ) : ℚ) < (m + 1 : ℕ) := by push_cast; linarith
  exact Nat.lt_succ_iff.1 (by exact_mod_cast this)

/-- Another whole number of steps is at least half a step away. -/
theorem half_le {k : ℕ} (h : Rounds v m q) (hk : k ≠ m) : 1 / 2 ≤ |v / 2 ^ q - k| := by
  have hone : (1 : ℚ) ≤ |(k : ℚ) - m| := by
    rcases Nat.lt_or_gt_of_ne hk with hlt | hlt
    · have : (k : ℚ) + 1 ≤ m := by exact_mod_cast hlt
      rw [abs_of_nonpos (by linarith)]; linarith
    · have : (m : ℚ) + 1 ≤ k := by exact_mod_cast hlt
      rw [abs_of_nonneg (by linarith)]; linarith
  have htri : |(k : ℚ) - m| ≤ |v / 2 ^ q - m| + |v / 2 ^ q - k| := by
    calc |(k : ℚ) - m| = |(v / 2 ^ q - m) - (v / 2 ^ q - k)| := by congr 1; ring
      _ ≤ _ := abs_sub _ _
  have := h.half
  linarith

theorem abs_sub_le (h : Rounds v m q) (k : ℕ) : |v / 2 ^ q - m| ≤ |v / 2 ^ q - k| := by
  rcases eq_or_ne k m with rfl | hk
  · exact le_rfl
  · exact le_trans h.half (h.half_le hk)

theorem abs_sub_scaled (v a : ℚ) (q : ℤ) : |v - a * 2 ^ q| = |v / 2 ^ q - a| * 2 ^ q := by
  have hq := two_zpow_pos q
  have e : v - a * 2 ^ q = (v / 2 ^ q - a) * 2 ^ q := by field_simp
  rw [e, abs_mul, abs_of_pos hq]

/-- Another value on the grid is no closer, and as close only if `m` is even. -/
theorem closer_on_grid (h : Rounds v m q) {x y : Magnitude} (hx : x.value = m * 2 ^ q)
    (hy : q ≤ y.exponent) (hne : y ≠ x) :
    |v - x.value| ≤ |v - y.value| ∧ (|v - y.value| = |v - x.value| → Even m) := by
  have hq := two_zpow_pos q
  obtain ⟨k, hk⟩ := value_eq_natCast_mul hy
  have hkm : k ≠ m := by
    rintro rfl
    exact hne (value_injective (hk.trans hx.symm))
  rw [hx, hk, abs_sub_scaled, abs_sub_scaled]
  refine ⟨mul_le_mul_of_nonneg_right (h.abs_sub_le k) hq.le, fun he => h.even ?_⟩
  exact le_antisymm h.half (mul_right_cancel₀ hq.ne' he ▸ h.half_le hkm)

/-- A value of a finer grid lies below the power of two from which on the grid is `2 ^ q`, and `v`
above it, so it is further away. -/
theorem closer_below_grid (h : Rounds v m q) {x y : Magnitude} (hx : x.value = m * 2 ^ q)
    (hy : y.exponent < q) : |v - x.value| < |v - y.value| := by
  have hq := two_zpow_pos q
  have hfull : (2 : ℚ) ^ 52 ≤ v / 2 ^ q := by
    have := y.inRange.1
    exact h.full.resolve_left (by omega)
  have hlt : y.value < 2 ^ 52 * 2 ^ q := by
    refine lt_of_lt_of_le y.value_lt ?_
    rw [← two_zpow_add_natCast]
    exact two_zpow_le (by push_cast; omega)
  have hv : 2 ^ 52 * 2 ^ q ≤ v := (le_div_iff₀ hq).1 hfull
  have hcast : ((2 ^ 52 : ℕ) : ℚ) = 2 ^ 52 := by norm_num
  calc |v - x.value| = |v / 2 ^ q - m| * 2 ^ q := by rw [hx, abs_sub_scaled]
    _ ≤ |v / 2 ^ q - (2 ^ 52 : ℕ)| * 2 ^ q := mul_le_mul_of_nonneg_right (h.abs_sub_le _) hq.le
    _ = v - 2 ^ 52 * 2 ^ q := by
      rw [← abs_sub_scaled, hcast, abs_of_nonneg (by linarith)]
    _ < v - y.value := by linarith
    _ = |v - y.value| := (abs_of_nonneg (by linarith)).symm

/-- The value on the grid is the nearest one, whatever the grid of the others is. -/
theorem nearest (h : Rounds v m q) {x : Magnitude} (hx : x.value = m * 2 ^ q)
    (heven : Even m → Even x.significand) (hlt : v < overflow) : Nearest v x := by
  have key : ∀ y : Magnitude, y ≠ x →
      |v - x.value| ≤ |v - y.value| ∧ (|v - y.value| = |v - x.value| → Even m) := by
    intro y hne
    rcases le_or_gt q y.exponent with hle | hgt
    · exact h.closer_on_grid hx hle hne
    · have hfar := h.closer_below_grid hx hgt
      exact ⟨hfar.le, fun he => absurd he hfar.ne'⟩
  refine ⟨hlt, fun y => ?_, fun y hne he => heven ((key y hne).2 he)⟩
  rcases eq_or_ne y x with rfl | hne
  · exact le_rfl
  · exact (key y hne).1

theorem lt_overflow (h : Rounds v m q) (hq : q ≤ 971) (hm : m < 2 ^ 53 ∨ q ≤ 970) :
    v < overflow := by
  have hp := two_zpow_pos q
  rcases eq_or_lt_of_le hq with rfl | hlt
  · -- the largest significand is odd, so `v` is less than half a step above it
    have hm' : (m : ℚ) ≤ 2 ^ 53 - 1 := by
      have : ((m + 1 : ℕ) : ℚ) ≤ (2 ^ 53 : ℕ) := by
        exact_mod_cast hm.resolve_right (by omega)
      push_cast at this; linarith
    have hle := (abs_le.1 h.half).2
    refine (div_lt_iff₀ hp).1 (lt_of_le_of_ne (by linarith) fun he => ?_)
    have hlast : (m : ℚ) = 2 ^ 53 - 1 := by linarith
    have hodd : m = 2 ^ 53 - 1 := by
      have : (m : ℚ) = (2 ^ 53 - 1 : ℕ) := by rw [hlast]; norm_num
      exact_mod_cast this
    have := h.even (by rw [he, hlast]; norm_num)
    rw [hodd] at this
    exact absurd this (by decide)
  · have h970 := two_zpow_pos 970
    calc v < 2 ^ 53 * 2 ^ q := (div_lt_iff₀ hp).1 h.fits
      _ ≤ 2 ^ 53 * 2 ^ (970 : ℤ) :=
        mul_le_mul_of_nonneg_left (two_zpow_le (by omega)) (by norm_num)
      _ ≤ overflow := by
        rw [overflow, show (971 : ℤ) = 970 + 1 by rfl, two_zpow_succ]
        generalize (2 : ℚ) ^ (970 : ℤ) = p at h970 ⊢
        linarith

theorem overflow_le (h : Rounds v m q) (hq : 971 < q ∨ q = 971 ∧ m = 2 ^ 53) : overflow ≤ v := by
  rcases hq with hq | ⟨rfl, rfl⟩
  · have hfull := h.full.resolve_left (by omega)
    have h971 := two_zpow_pos 971
    calc overflow ≤ 2 ^ 52 * 2 ^ (971 + 1 : ℤ) := by
          rw [overflow, two_zpow_succ]
          generalize (2 : ℚ) ^ (971 : ℤ) = p at h971 ⊢
          linarith
      _ ≤ 2 ^ 52 * 2 ^ q := mul_le_mul_of_nonneg_left (two_zpow_le (by omega)) (by norm_num)
      _ ≤ v := (le_div_iff₀ (two_zpow_pos q)).1 hfull
  · have := (abs_le.1 h.half).1
    have hcast : ((2 ^ 53 : ℕ) : ℚ) = 2 ^ 53 := by norm_num
    exact (le_div_iff₀ (two_zpow_pos 971)).1 (by rw [hcast] at this; linarith)

end Rounds

theorem nearest_zero : Nearest 0 zero := by
  have h : zero.value = 0 := by simp [value, zero]
  exact h ▸ Nearest.self zero

/-- What rounding a ratio gives, either way. -/
theorem ofRatio?_spec (num : ℕ) {den : ℕ} (hd : 0 < den) :
    (∀ x, ofRatio? num den = some x → Nearest (num / den) x) ∧
      (ofRatio? num den = none → overflow ≤ num / den) := by
  rcases Nat.eq_zero_or_pos num with rfl | hn
  · simp only [ofRatio?, ↓reduceIte, Nat.cast_zero, zero_div]
    exact ⟨fun x hx => Option.some.inj hx ▸ nearest_zero, nofun⟩
  simp only [ofRatio?, hn.ne', ↓reduceIte]
  generalize hq : max (-1074) (binaryOrder num den - 52) = q
  have h := rounds_of_pos hn hd hq.symm
  generalize roundHalfEven (num * Nat.pow 2 (-q).toNat) (den * Nat.pow 2 q.toNat) = m at h ⊢
  have hq := h.least
  split
  · rename_i hm
    have hm' : m = 2 ^ 53 := hm
    constructor
    · intro x hx
      obtain ⟨hs, he⟩ := of?_eq_some_iff.1 hx
      refine h.nearest ?_ (fun _ => ?_) (h.lt_overflow ?_ (.inr ?_))
      · rw [value, ← hs, ← he, two_zpow_succ, hm']
        simp only [Nat.pow_eq]; push_cast; ring
      · rw [← hs]; decide
      all_goals have := x.inRange.2; omega
    · intro hnone
      refine h.overflow_le ?_
      by_contra hcon
      rw [of?, dif_pos ⟨by decide, by omega, .inr (by decide)⟩] at hnone
      cases hnone
  · rename_i hm
    have hlt : m < 2 ^ 53 := lt_of_le_of_ne h.le_carry hm
    constructor
    · intro x hx
      obtain ⟨rfl, rfl⟩ := of?_eq_some_iff.1 hx
      exact h.nearest rfl id (h.lt_overflow x.inRange.2 (.inl hlt))
    · intro hnone
      refine h.overflow_le (.inl ?_)
      by_contra hcon
      rw [of?, dif_pos ⟨hlt, ⟨hq, by omega⟩, h.normal⟩] at hnone
      cases hnone

theorem ofRatio?_eq_some_iff {num den : ℕ} (hd : 0 < den) {x : Magnitude} :
    ofRatio? num den = some x ↔ Nearest (num / den) x := by
  obtain ⟨hsome, hnone⟩ := ofRatio?_spec num hd
  refine ⟨hsome x, fun h => ?_⟩
  cases he : ofRatio? num den with
  | none => exact absurd h.below (not_lt.2 (hnone he))
  | some y => exact congrArg some ((hsome y he).unique h)

theorem ofRatio?_eq_none_iff {num den : ℕ} (hd : 0 < den) :
    ofRatio? num den = none ↔ overflow ≤ num / den := by
  obtain ⟨hsome, hnone⟩ := ofRatio?_spec num hd
  refine ⟨hnone, fun h => ?_⟩
  cases he : ofRatio? num den with
  | none => rfl
  | some y => exact absurd (hsome y he).below (not_lt.2 h)

/-! ## Rounding a decimal -/

/-- What is less than half the least positive double is rounded to zero. -/
theorem nearest_zero_of_lt {v : ℚ} (h₀ : 0 ≤ v) (h : v < 2 ^ (-1075 : ℤ)) : Nearest v zero := by
  have hz : zero.value = 0 := by simp [value, zero]
  have hleast : (2 : ℚ) ^ (-1074 : ℤ) = 2 * 2 ^ (-1075 : ℤ) := by
    rw [show (-1074 : ℤ) = -1075 + 1 by norm_num, two_zpow_succ]
  have hfar : ∀ y : Magnitude, y ≠ zero → |v - zero.value| < |v - y.value| := by
    intro y hne
    have hpos : zero.value < y.value :=
      lt_of_le_of_ne (hz ▸ y.value_nonneg) fun he => hne (value_injective he.symm)
    have hstep := step_le_of_lt hpos
    rw [hz, zero_add] at hstep
    change (2 : ℚ) ^ (-1074 : ℤ) ≤ y.value at hstep
    rw [hz, sub_zero, abs_of_nonneg h₀, abs_of_nonpos (by linarith)]
    linarith
  refine ⟨?_, fun y => ?_, fun y hne he => absurd he.symm (hfar y hne).ne⟩
  · have hbig : (2 : ℚ) ^ (-1075 : ℤ) ≤ 2 ^ (971 : ℤ) := two_zpow_le (by norm_num)
    have h971 := two_zpow_pos 971
    unfold overflow
    generalize (2 : ℚ) ^ (971 : ℤ) = p at *
    linarith
  · rcases eq_or_ne y zero with rfl | hne
    · exact le_rfl
    · exact (hfar y hne).le

theorem overflow_le_two_zpow : overflow ≤ 2 ^ (1024 : ℤ) := by
  have h := two_zpow_pos 971
  have e : (2 : ℚ) ^ (1024 : ℤ) = 2 ^ 53 * 2 ^ (971 : ℤ) := two_zpow_add_natCast 53 971
  rw [e, overflow]
  exact mul_le_mul_of_nonneg_right (by norm_num) h.le

theorem two_zpow_three_mul (e : ℤ) : (2 : ℚ) ^ (3 * e) = 8 ^ e := by
  rw [zpow_mul]; norm_num

/-- Far above the largest double. -/
theorem overflow_le_of_log2 {c : ℕ} {e : ℤ} (hc : 0 < c) (he : 0 ≤ e)
    (h : 1024 ≤ (c.log2 : ℤ) + 3 * e) : overflow ≤ c * 10 ^ e := by
  have hlog : (2 : ℚ) ^ (c.log2 : ℤ) ≤ c := by
    rw [zpow_natCast]; exact_mod_cast Nat.log2_self_le hc.ne'
  have hten : (8 : ℚ) ^ e ≤ 10 ^ e := zpow_le_zpow_left₀ he (by norm_num) (by norm_num)
  calc overflow ≤ 2 ^ ((c.log2 : ℤ) + 3 * e) := overflow_le_two_zpow.trans (two_zpow_le h)
    _ = 2 ^ (c.log2 : ℤ) * 8 ^ e := by rw [zpow_add₀ two_ne_zero, two_zpow_three_mul]
    _ ≤ c * 10 ^ e := mul_le_mul hlog hten (by positivity) (by positivity)

/-- Far below the least positive double. -/
theorem lt_of_log2 {c : ℕ} {e : ℤ} (he : e < 0) (h : (c.log2 : ℤ) + 1076 ≤ 3 * -e) :
    (c : ℚ) * 10 ^ e < 2 ^ (-1075 : ℤ) := by
  have hlog : (c : ℚ) < 2 ^ ((c.log2 : ℤ) + 1) := by
    have : (c : ℚ) < 2 ^ (c.log2 + 1) := by exact_mod_cast Nat.lt_log2_self
    exact_mod_cast this
  have hten : (10 : ℚ) ^ e ≤ 8 ^ e := by
    rw [zpow_eq_div 10, zpow_eq_div 8, show e.toNat = 0 by omega, pow_zero, pow_zero]
    exact one_div_le_one_div_of_le (by positivity) (pow_le_pow_left₀ (by norm_num) (by norm_num) _)
  calc (c : ℚ) * 10 ^ e < 2 ^ ((c.log2 : ℤ) + 1) * 10 ^ e :=
        mul_lt_mul_of_pos_right hlog (by positivity)
    _ ≤ 2 ^ ((c.log2 : ℤ) + 1) * 2 ^ (3 * e) := by
        rw [two_zpow_three_mul]; exact mul_le_mul_of_nonneg_left hten (two_zpow_pos _).le
    _ = 2 ^ ((c.log2 : ℤ) + 1 + 3 * e) := (zpow_add₀ two_ne_zero _ _).symm
    _ ≤ 2 ^ (-1075 : ℤ) := two_zpow_le (by omega)

theorem ofDecimal?_spec (c : ℕ) (e : ℤ) :
    (∀ x, ofDecimal? c e = some x → Nearest (c * 10 ^ e) x) ∧
      (ofDecimal? c e = none → overflow ≤ c * 10 ^ e) := by
  unfold ofDecimal?
  split_ifs with hc he hbig hsmall
  · rw [hc, Nat.cast_zero, zero_mul]
    exact ⟨fun x hx => Option.some.inj hx ▸ nearest_zero, nofun⟩
  · exact ⟨by simp, fun _ => overflow_le_of_log2 (Nat.pos_of_ne_zero hc) he hbig⟩
  · have hv : ((c * Nat.pow 10 e.toNat : ℕ) : ℚ) / (1 : ℕ) = c * 10 ^ e := by
      rw [zpow_eq_div, show (-e).toNat = 0 by omega]
      simp only [Nat.pow_eq]; push_cast; simp
    exact hv ▸ ofRatio?_spec (c * Nat.pow 10 e.toNat) one_pos
  · have hlt := lt_of_log2 (by omega) hsmall
    exact ⟨fun x hx => Option.some.inj hx ▸ nearest_zero_of_lt (by positivity) hlt, nofun⟩
  · have hv : (c : ℚ) / (Nat.pow 10 (-e).toNat : ℕ) = c * 10 ^ e := by
      rw [zpow_eq_div, show e.toNat = 0 by omega]
      simp only [Nat.pow_eq]; push_cast; ring
    exact hv ▸ ofRatio?_spec c (Nat.pow_pos (by norm_num))

theorem ofDecimal?_eq_some_iff {c : ℕ} {e : ℤ} {x : Magnitude} :
    ofDecimal? c e = some x ↔ Nearest (c * 10 ^ e) x := by
  obtain ⟨hsome, hnone⟩ := ofDecimal?_spec c e
  refine ⟨hsome x, fun h => ?_⟩
  cases he : ofDecimal? c e with
  | none => exact absurd h.below (not_lt.2 (hnone he))
  | some y => exact congrArg some ((hsome y he).unique h)

theorem ofDecimal?_eq_none_iff {c : ℕ} {e : ℤ} :
    ofDecimal? c e = none ↔ overflow ≤ c * 10 ^ e := by
  obtain ⟨hsome, hnone⟩ := ofDecimal?_spec c e
  refine ⟨hnone, fun h => ?_⟩
  cases he : ofDecimal? c e with
  | none => rfl
  | some y => exact absurd (hsome y he).below (not_lt.2 h)

end JoinPlan.Magnitude
