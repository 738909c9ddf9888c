import Mathlib.Algebra.Order.Ring.Pow
import Mathlib.Data.Rat.Lemmas
import Mathlib.Tactic.IntervalCases
import JoinPlan.Proofs.Number.Nearest
/-!
# Errors of rounding

A rounding goes at most half a step, and away from the least doubles a step is a small part of the
number, at most `2 ^ -52` of it. `Magnitude.Within k` allows for the errors of `k` such roundings in a
row; it goes through products and quotients. In the end the errors are counted in steps again: a step
is at least `2 ^ -53` of the number, whatever its size, so `k` errors are about `k` steps.

Results:
* `Nearest.mono`, `Nearest.abs_sub_le_half`: rounding keeps the order and goes at most half a step.
* `Nearest.within`, `Within.mul`, `Within.div`: errors of one rounding and of several.
* `Nearest.abs_sub_le_five`: how far apart numbers are rounded that differ by few steps.
* `mul?_eq_some_iff`, `div?_eq_some_iff`: rounded products and quotients.
-/
namespace JoinPlan.Magnitude

/-! ## Half a step -/

theorem natCast_num_div_den {v : ℚ} (h : 0 ≤ v) : ((v.num.toNat : ℕ) : ℚ) / v.den = v := by
  rw [← Int.cast_natCast, Int.toNat_of_nonneg (Rat.num_nonneg.2 h), Rat.num_div_den]

/-- What is not too large is rounded to something. -/
theorem exists_nearest {v : ℚ} (h : 0 ≤ v) (hv : v < overflow) : ∃ x, Nearest v x := by
  obtain ⟨x, hx⟩ : ∃ x, ofRatio? v.num.toNat v.den = some x := by
    rw [← Option.ne_none_iff_exists', Ne, ofRatio?_eq_none_iff v.den_pos, natCast_num_div_den h]
    exact not_le.2 hv
  rw [ofRatio?_eq_some_iff v.den_pos, natCast_num_div_den h] at hx
  exact ⟨x, hx⟩

theorem Rounds.abs_sub_le_half {v : ℚ} {m : ℕ} {q : ℤ} (h : Rounds v m q) :
    |v - m * 2 ^ q| ≤ 2 ^ q / 2 := by
  rw [abs_sub_scaled]
  have := mul_le_mul_of_nonneg_right h.half (two_zpow_pos q).le
  linarith

namespace Nearest

variable {v v' t : ℚ} {x x' y : Magnitude}

/-- The grid on which a number is rounded. -/
theorem exists_rounds (hv : 0 < v) (h : Nearest v x) :
    ∃ m q, Rounds v m q ∧ x.value = m * 2 ^ q ∧ q ≤ x.exponent := by
  have hnum : 0 < v.num.toNat := by
    have := Rat.num_pos.2 hv
    omega
  have hround : ofRatio? v.num.toNat v.den = some x := by
    rw [ofRatio?_eq_some_iff v.den_pos, natCast_num_div_den hv.le]
    exact h
  simp only [ofRatio?, hnum.ne', ↓reduceIte] at hround
  generalize hq : max (-1074) (binaryOrder v.num.toNat v.den - 52) = q at hround
  have hr := rounds_of_pos hnum v.den_pos hq.symm
  rw [natCast_num_div_den hv.le] at hr
  generalize roundHalfEven _ _ = m at hround hr
  split at hround
  · -- a carry: the value is on the grid, the exponent one above it
    rename_i hm
    obtain ⟨hs, he⟩ := of?_eq_some_iff.1 hround
    refine ⟨m, q, hr, ?_, by omega⟩
    rw [value, ← hs, ← he, two_zpow_succ, hm]
    simp only [Nat.pow_eq]
    push_cast
    ring
  · obtain ⟨rfl, rfl⟩ := of?_eq_some_iff.1 hround
    exact ⟨_, _, hr, rfl, le_rfl⟩

/-- Rounding keeps the order. -/
theorem mono (h : Nearest v x) (h' : Nearest v' x') (hle : v ≤ v') : x.value ≤ x'.value := by
  rcases hle.eq_or_lt with rfl | hlt
  · rw [h.unique h']
  · by_contra hcon
    have h₁ := h.le x'
    have h₂ := h'.le x
    rcases abs_cases (v - x.value) with ⟨e₁, _⟩ | ⟨e₁, _⟩ <;>
      rcases abs_cases (v - x'.value) with ⟨e₂, _⟩ | ⟨e₂, _⟩ <;>
      rcases abs_cases (v' - x.value) with ⟨e₃, _⟩ | ⟨e₃, _⟩ <;>
      rcases abs_cases (v' - x'.value) with ⟨e₄, _⟩ | ⟨e₄, _⟩ <;> linarith

theorem abs_sub_le_half (hv : 0 < v) (h : Nearest v x) : |v - x.value| ≤ 2 ^ x.exponent / 2 := by
  obtain ⟨m, q, hr, hx, hq⟩ := h.exists_rounds hv
  have := hr.abs_sub_le_half
  have := two_zpow_le hq
  rw [hx]
  linarith

/-- A number is at most as many steps as a significand can count. -/
theorem div_le_step (hv : 0 < v) (h : Nearest v x) : v / 2 ^ 53 ≤ 2 ^ x.exponent := by
  have hhalf := (abs_le.1 (h.abs_sub_le_half hv)).2
  have hvalue : x.value ≤ (2 ^ 53 - 1) * 2 ^ x.exponent :=
    mul_le_mul_of_nonneg_right x.significand_le (two_zpow_pos x.exponent).le
  have := two_zpow_pos x.exponent
  rw [div_le_iff₀ (by positivity)]
  linarith

/-- Where the steps are not yet the least ones they are small; `j` powers of two further down they
are that much larger. -/
theorem abs_sub_le_mul (j : ℕ) (hv : 2 ^ (-1022 - j : ℤ) ≤ v) (h : Nearest v x) :
    |v - x.value| ≤ 2 ^ j / 2 ^ 53 * v := by
  have hpos : 0 < v := lt_of_lt_of_le (two_zpow_pos _) hv
  obtain ⟨m, q, hr, hx, -⟩ := h.exists_rounds hpos
  have hhalf := hr.abs_sub_le_half
  rw [← hx] at hhalf
  refine hhalf.trans ?_
  rcases hr.full with rfl | hfull
  · have hsplit : (2 : ℚ) ^ (-1022 : ℤ) = 2 ^ 52 * 2 ^ (-1074 : ℤ) := by
      rw [← two_zpow_add_natCast]
      norm_num
    have he : (2 : ℚ) ^ (-1074 : ℤ) / 2 = 2 ^ j / 2 ^ 53 * 2 ^ (-1022 - j : ℤ) := by
      rw [div_mul_eq_mul_div, ← two_zpow_add_natCast, show (j : ℤ) + (-1022 - j) = -1022 by ring,
        hsplit]
      ring
    rw [he]
    gcongr
  · have hone : (1 : ℚ) ≤ 2 ^ j := one_le_pow₀ (by norm_num)
    have hle : 2 ^ 52 * 2 ^ q ≤ v := (le_div_iff₀ (two_zpow_pos q)).1 hfull
    have : v ≤ 2 ^ j * v := le_mul_of_one_le_left hpos.le hone
    linarith

end Nearest

/-- What has at most 53 bits and is in range is a double. -/
theorem exists_value_eq {m : ℕ} {q : ℤ} (hm : m < 2 ^ 53) (hq : -1074 ≤ q)
    (hv : (m : ℚ) * 2 ^ q < overflow) : ∃ x : Magnitude, x.value = m * 2 ^ q := by
  rcases Nat.eq_zero_or_pos m with rfl | hpos
  · exact ⟨zero, by simp [value, zero]⟩
  have hv₀ : (0 : ℚ) < m * 2 ^ q := mul_pos (Nat.cast_pos.2 hpos) (two_zpow_pos q)
  obtain ⟨x, hx⟩ := exists_nearest hv₀.le hv
  refine ⟨x, ?_⟩
  obtain ⟨k, p, hr, hvalue, -⟩ := hx.exists_rounds hv₀
  have hp := two_zpow_pos p
  rcases le_or_gt p q with hle | hgt
  · -- the number is on the grid, so rounding does not move it
    have hgrid : (m : ℚ) * 2 ^ q / 2 ^ p = (m * 2 ^ (q - p).toNat : ℕ) := by
      rw [div_eq_iff hp.ne', Nat.cast_mul, Nat.cast_pow, Nat.cast_ofNat, mul_assoc,
        ← two_zpow_add_natCast, show ((q - p).toNat : ℤ) + p = q by omega]
    have hk : m * 2 ^ (q - p).toNat = k := by
      by_contra hne
      have := hr.half_le hne
      rw [hgrid, sub_self, abs_zero] at this
      norm_num at this
    rw [hvalue, ← hk, ← hgrid, div_mul_cancel₀ _ hp.ne']
  · -- a coarser grid would need more bits
    have hfull := (le_div_iff₀ hp).1 (hr.full.resolve_left (by omega))
    have hstep := two_zpow_le (show q + 1 ≤ p by omega)
    rw [two_zpow_succ] at hstep
    have hm' : (m : ℚ) < 2 ^ 53 := by exact_mod_cast hm
    have := mul_lt_mul_of_pos_right hm' (two_zpow_pos q)
    linarith

/-! ## Relative errors -/

/-- `a` and `b` differ by the errors of at most `k` roundings. -/
structure Within (k : ℕ) (a b : ℚ) : Prop where
  lower : b * (1 - 1 / 2 ^ 53) ^ k ≤ a
  upper : a * (1 - 1 / 2 ^ 53) ^ k ≤ b

namespace Within

variable {j k : ℕ} {a b c d : ℚ}

theorem pos (h : Within k a b) (hb : 0 < b) : 0 < a :=
  (show (0 : ℚ) < b * (1 - 1 / 2 ^ 53) ^ k by positivity).trans_le h.lower

theorem mul (hac : Within j a c) (hbd : Within k b d) (ha : 0 ≤ a) (hb : 0 ≤ b) (hc : 0 ≤ c)
    (hd : 0 ≤ d) : Within (j + k) (a * b) (c * d) := by
  constructor
  · calc c * d * (1 - 1 / 2 ^ 53) ^ (j + k)
        = c * (1 - 1 / 2 ^ 53) ^ j * (d * (1 - 1 / 2 ^ 53) ^ k) := by rw [pow_add]; ring
      _ ≤ a * b := mul_le_mul hac.lower hbd.lower (by positivity) ha
  · calc a * b * (1 - 1 / 2 ^ 53) ^ (j + k)
        = a * (1 - 1 / 2 ^ 53) ^ j * (b * (1 - 1 / 2 ^ 53) ^ k) := by rw [pow_add]; ring
      _ ≤ c * d := mul_le_mul hac.upper hbd.upper (by positivity) hc

theorem inv (h : Within k a b) (ha : 0 < a) (hb : 0 < b) : Within k a⁻¹ b⁻¹ := by
  constructor
  · rw [← div_eq_inv_mul, div_le_iff₀ hb, ← div_eq_inv_mul, le_div_iff₀ ha, mul_comm]
    exact h.upper
  · rw [← div_eq_inv_mul, div_le_iff₀ ha, ← div_eq_inv_mul, le_div_iff₀ hb, mul_comm]
    exact h.lower

theorem div (hac : Within j a c) (hbd : Within k b d) (ha : 0 ≤ a) (hb : 0 < b) (hc : 0 ≤ c)
    (hd : 0 < d) : Within (j + k) (a / b) (c / d) := by
  rw [div_eq_mul_inv, div_eq_mul_inv]
  exact hac.mul (hbd.inv hb hd) ha (by positivity) hc (by positivity)

theorem trans (hab : Within j a b) (hbc : Within k b c) : Within (j + k) a c := by
  have hpow : ∀ n : ℕ, (0 : ℚ) ≤ (1 - 1 / 2 ^ 53) ^ n := fun n => by positivity
  constructor
  · calc c * (1 - 1 / 2 ^ 53) ^ (j + k) = c * (1 - 1 / 2 ^ 53) ^ k * (1 - 1 / 2 ^ 53) ^ j := by
          rw [pow_add]; ring
      _ ≤ b * (1 - 1 / 2 ^ 53) ^ j := mul_le_mul_of_nonneg_right hbc.lower (hpow j)
      _ ≤ a := hab.lower
  · calc a * (1 - 1 / 2 ^ 53) ^ (j + k) = a * (1 - 1 / 2 ^ 53) ^ j * (1 - 1 / 2 ^ 53) ^ k := by
          rw [pow_add]; ring
      _ ≤ b * (1 - 1 / 2 ^ 53) ^ k := mul_le_mul_of_nonneg_right hab.upper (hpow k)
      _ ≤ c := hbc.upper

theorem of_abs_sub_le {e : ℚ} (hb : 0 ≤ b) (hlow : (1 - 1 / 2 ^ 53) ^ k ≤ 1 - e)
    (hhigh : (1 + e) * (1 - 1 / 2 ^ 53) ^ k ≤ 1) (h : |b - a| ≤ e * b) : Within k a b := by
  obtain ⟨h₁, h₂⟩ := abs_le.1 h
  constructor
  · have := mul_le_mul_of_nonneg_left hlow hb
    linarith
  · have hpow : (0 : ℚ) ≤ (1 - 1 / 2 ^ 53) ^ k := by positivity
    calc a * (1 - 1 / 2 ^ 53) ^ k ≤ b * (1 + e) * (1 - 1 / 2 ^ 53) ^ k :=
          mul_le_mul_of_nonneg_right (by linarith) hpow
      _ = b * ((1 + e) * (1 - 1 / 2 ^ 53) ^ k) := by ring
      _ ≤ b := mul_le_of_le_one_right hb hhigh

/-- Few errors add up, and hardly anything comes on top. -/
theorem abs_sub_le (hk : k ≤ 8) (h : Within k a b) (hb : 0 ≤ b) :
    |a - b| ≤ (k + 1 / 4) * (b / 2 ^ 53) := by
  have hlow : (1 : ℚ) - (k + 1 / 4) / 2 ^ 53 ≤ (1 - 1 / 2 ^ 53) ^ k := by
    interval_cases k <;> norm_num
  have hhigh : (1 : ℚ) ≤ (1 - 1 / 2 ^ 53) ^ k * (1 + (k + 1 / 4) / 2 ^ 53) := by
    interval_cases k <;> norm_num
  have ha : 0 ≤ a := le_trans (by positivity) h.lower
  rw [abs_le]
  constructor
  · have := (mul_le_mul_of_nonneg_left hlow hb).trans h.lower
    linarith
  · have : a ≤ b * (1 + (k + 1 / 4) / 2 ^ 53) :=
      calc a ≤ a * ((1 - 1 / 2 ^ 53) ^ k * (1 + (k + 1 / 4) / 2 ^ 53)) :=
            le_mul_of_one_le_right ha hhigh
        _ = a * (1 - 1 / 2 ^ 53) ^ k * (1 + (k + 1 / 4) / 2 ^ 53) := by ring
        _ ≤ b * (1 + (k + 1 / 4) / 2 ^ 53) :=
            mul_le_mul_of_nonneg_right h.upper (by positivity)
    linarith

end Within

namespace Nearest

variable {v t : ℚ} {x y : Magnitude}

theorem within (hv : 2 ^ (-1022 : ℤ) ≤ v) (h : Nearest v x) : Within 1 x.value v := by
  have hpos : 0 ≤ v := (two_zpow_pos _).le.trans hv
  have habs := h.abs_sub_le_mul 0 (by simpa using hv)
  exact Within.of_abs_sub_le hpos (by norm_num) (by norm_num) habs

/-- A little below that, a rounding counts for five. -/
theorem within_five (hv : 2 ^ (-1024 : ℤ) ≤ v) (h : Nearest v x) : Within 5 x.value v := by
  have hpos : 0 ≤ v := (two_zpow_pos _).le.trans hv
  have habs := h.abs_sub_le_mul 2 hv
  exact Within.of_abs_sub_le hpos (by norm_num) (by norm_num) habs

/-- A number of at most four steps further away is at most one binade further up. -/
theorem exponent_le_of_close (hv : 0 < v) (hx : Nearest v x) {m : ℕ} {q : ℤ} (hr : Rounds t m q)
    (h : |t - v| ≤ 17 / 4 * 2 ^ x.exponent) : q ≤ x.exponent + 1 := by
  by_contra hq
  have hstep := hx.div_le_step hv
  have hle := x.inRange.1
  have hfull := (le_div_iff₀ (two_zpow_pos q)).1 (hr.full.resolve_left (by omega))
  have hpow : 2 * (2 * 2 ^ x.exponent) ≤ (2 : ℚ) ^ q := by
    rw [← two_zpow_succ, ← two_zpow_succ]
    exact two_zpow_le (by omega)
  have hpos := two_zpow_pos x.exponent
  have := (abs_le.1 h).2
  rw [div_le_iff₀ (by positivity)] at hstep
  linarith

/-- **Few steps.** Two numbers that differ by few steps are rounded to doubles that do so. -/
theorem abs_sub_le_five (hv : 0 < v) (ht : 0 < t) (hx : Nearest v x) (hy : Nearest t y)
    (h : |t - v| ≤ 17 / 4 * 2 ^ x.exponent) :
    |y.value - x.value| ≤ 5 * 2 ^ x.exponent := by
  obtain ⟨m, q, hr, hym, -⟩ := hy.exists_rounds ht
  have hq := hx.exponent_le_of_close hv hr h
  have hpos := two_zpow_pos x.exponent
  have hty := hr.abs_sub_le_half
  have hvx := hx.abs_sub_le_half hv
  have htri : |y.value - x.value| ≤ |t - m * 2 ^ q| + |t - v| + |v - x.value| := by
    have h₁ := abs_sub_le y.value t x.value
    have h₂ := abs_sub_le t v x.value
    rw [abs_sub_comm y.value t, hym] at h₁
    rw [hym]
    linarith
  rcases lt_or_ge q x.exponent with hlt | hge
  · have := two_zpow_le (show q + 1 ≤ x.exponent by omega)
    rw [two_zpow_succ] at this
    linarith
  · -- both are whole numbers of steps, so less than six steps are at most five
    have hle := two_zpow_le hq
    rw [two_zpow_succ] at hle
    have hsix : |y.value - x.value| < 6 * 2 ^ x.exponent := by linarith
    have hsteps : y.value - x.value =
        (m * 2 ^ (q - x.exponent).toNat - x.significand : ℤ) * 2 ^ x.exponent := by
      have he : (2 : ℚ) ^ q = 2 ^ (q - x.exponent).toNat * 2 ^ x.exponent := by
        rw [← two_zpow_add_natCast]
        congr 1
        omega
      rw [hym, he, value]
      push_cast
      ring
    rw [hsteps, abs_mul, abs_of_pos hpos] at hsix ⊢
    have hint : |(m * 2 ^ (q - x.exponent).toNat - x.significand : ℤ)| ≤ 5 := by
      have := lt_of_mul_lt_mul_right hsix hpos.le
      rw [← Int.cast_abs] at this
      have : |(m * 2 ^ (q - x.exponent).toNat - x.significand : ℤ)| < 6 := by exact_mod_cast this
      omega
    refine mul_le_mul_of_nonneg_right ?_ hpos.le
    exact_mod_cast hint

end Nearest

/-! ## Products and quotients -/

theorem value_eq_div (x : Magnitude) : x.value = x.numerator / x.denominator := by
  rw [value, numerator, denominator, zpow_eq_div]
  simp only [Nat.pow_eq]
  push_cast
  ring

theorem value_pos_iff {x : Magnitude} : 0 < x.value ↔ x.significand ≠ 0 := by
  rw [value, mul_pos_iff_of_pos_right (two_zpow_pos _), Nat.cast_pos, Nat.pos_iff_ne_zero]

theorem denominator_pos (x : Magnitude) : 0 < x.denominator := Nat.pow_pos two_pos

theorem numerator_pos {x : Magnitude} (h : 0 < x.value) : 0 < x.numerator := by
  rw [value_eq_div] at h
  have hd : (0 : ℚ) < x.denominator := Nat.cast_pos.2 x.denominator_pos
  exact Nat.cast_pos.1 ((div_pos_iff_of_pos_right hd).1 h)

theorem mul?_eq_some_iff {x y z : Magnitude} :
    x.mul? y = some z ↔ Nearest (x.value * y.value) z := by
  rw [mul?, ofRatio?_eq_some_iff (Nat.mul_pos x.denominator_pos y.denominator_pos), value_eq_div x,
    value_eq_div y, div_mul_div_comm]
  push_cast
  rfl

theorem div?_eq_some_iff {x y z : Magnitude} (hy : 0 < y.value) :
    x.div? y = some z ↔ Nearest (x.value / y.value) z := by
  rw [div?, ofRatio?_eq_some_iff (Nat.mul_pos x.denominator_pos (numerator_pos hy)),
    value_eq_div x, value_eq_div y, div_div_div_eq]
  push_cast
  rfl

end JoinPlan.Magnitude
