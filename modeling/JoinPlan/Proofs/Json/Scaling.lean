import JoinPlan.Proofs.Json.Number
import JoinPlan.Proofs.Number.Precision
/-!
# Scaling by rounded powers of ten

A number that is read is a double of its digits, multiplied or divided by the double nearest to a
power of ten, so each step is rounded. If digits and power are doubles themselves nothing but the
last step is rounded, and the outcome is the nearest double. In general it is a few steps away from
that one. It stays in range whenever the number itself does, except close to the greatest double.

**Errors.** Digits and power are rounded once each. Below `10 ^ -308` there are two powers and a first
quotient, so four roundings come before the last one, and the last one adds a step. The first quotient
can be a little smaller than the doubles that have all their bits, but then the number itself is so
small that a step is much larger than those errors.

**Range.** With at most seventeen digits a product is far from the bound for powers up to `10 ^ 291`.
From `10 ^ 293` on the last place is so large that the greatest number below the bound is further away
from it than two roundings go. At `10 ^ 292` it is not, and there the roundings are computed.

Results:
* `scale?_of_nonneg`, `scale?_of_neg`, `scale?_of_deep`: which steps are made.
* `Number.scaled?_of_exact`: where the nearest double is found.
* `Number.exists_scaled?`: there is an outcome, and how far away from the nearest double it is.
-/
namespace JoinPlan.Json
open Magnitude

/-! ## Powers of ten -/

theorem ten_zpow_of_nonneg {e : ℤ} (he : 0 ≤ e) : (10 : ℚ) ^ e = 10 ^ e.toNat := by
  rw [← zpow_natCast, Int.toNat_of_nonneg he]

theorem mul_ten_zpow_of_neg (a : ℚ) {e : ℤ} (he : e < 0) :
    a * 10 ^ e = a / 10 ^ (-e).toNat := by
  rw [← ten_zpow_of_nonneg (by omega), zpow_neg, div_inv_eq_mul]

theorem powerOfTen?_eq_some_iff {n : ℕ} {p : Magnitude} :
    powerOfTen? n = some p ↔ Nearest (10 ^ n) p := by
  rw [powerOfTen?, ofDecimal?_eq_some_iff, Nat.cast_one, one_mul, zpow_natCast]

/-- The bound of the doubles as a natural number. -/
theorem overflow_eq : overflow = ((2 ^ 54 - 1) * 2 ^ 970 : ℕ) := by
  have hpow : (2 : ℚ) ^ (970 : ℤ) = (2 ^ 970 : ℕ) := by
    rw [Nat.cast_pow, Nat.cast_ofNat]
    exact zpow_natCast 2 970
  rw [overflow, show (971 : ℤ) = 970 + 1 by rfl, two_zpow_succ, hpow, Nat.cast_mul]
  generalize ((2 ^ 970 : ℕ) : ℚ) = p
  norm_num
  ring

theorem lt_of_mul_ten_pow_lt {w n : ℕ} (h : (w : ℚ) * 10 ^ n < overflow) :
    w * 10 ^ n < (2 ^ 54 - 1) * 2 ^ 970 := by
  rw [overflow_eq] at h
  exact_mod_cast h

/-- A natural number that leaves room for so many roundings. -/
theorem natCast_lt_overflow_mul {n k : ℕ}
    (h : n * (2 ^ 53) ^ k < (2 ^ 54 - 1) * 2 ^ 970 * (2 ^ 53 - 1) ^ k) :
    (n : ℚ) < overflow * (1 - 1 / 2 ^ 53) ^ k := by
  have hratio : (1 - 1 / 2 ^ 53 : ℚ) = (2 ^ 53 - 1 : ℕ) / (2 ^ 53 : ℕ) := by norm_num
  have hpos : (0 : ℚ) < ((2 ^ 53 : ℕ) : ℚ) ^ k := by positivity
  have hcast := Nat.cast_lt (α := ℚ).2 h
  rw [Nat.cast_mul, Nat.cast_mul ((2 ^ 54 - 1) * 2 ^ 970), ← overflow_eq, Nat.cast_pow (2 ^ 53),
    Nat.cast_pow (2 ^ 53 - 1)] at hcast
  rw [hratio, div_pow, mul_div_assoc', lt_div_iff₀ hpos]
  exact hcast

/-- There is room above the greatest power of ten. -/
theorem ten_pow_308_lt_overflow : (3 / 2 : ℚ) * 10 ^ 308 < overflow := by
  have hlt : 3 * (10 ^ 154) ^ 2 < 2 * ((2 ^ 54 - 1) * (2 ^ 97) ^ 10) := by norm_num
  have h : ((3 * 10 ^ 308 : ℕ) : ℚ) < (2 * ((2 ^ 54 - 1) * 2 ^ 970) : ℕ) := by
    rw [Nat.cast_lt, pow_mul 10 154 2, pow_mul 2 97 10]
    exact hlt
  rw [Nat.cast_mul 2, ← overflow_eq, Nat.cast_mul, Nat.cast_pow] at h
  simp only [Nat.cast_ofNat] at h
  generalize (10 : ℚ) ^ 308 = p at h ⊢
  linarith

/-- Dividing by the greatest power of ten leads little further down than the doubles go that have
all their bits. -/
theorem two_zpow_le_inv_ten_pow_308 : (2 : ℚ) ^ (-1024 : ℤ) ≤ 1 / 10 ^ 308 * (2 / 3) := by
  have hle := ten_pow_308_lt_overflow.le.trans overflow_le_two_zpow
  have hpos : (0 : ℚ) < 10 ^ 308 := by positivity
  have hpos' := two_zpow_pos 1024
  rw [zpow_neg, div_mul_eq_mul_div, one_mul, le_div_iff₀ hpos, inv_mul_le_iff₀ hpos']
  generalize (10 : ℚ) ^ 308 = p at hle ⊢
  linarith

theorem lt_overflow_of_le {v : ℚ} (hv : v ≤ 10 ^ 308) : v < overflow := by
  have hmax := ten_pow_308_lt_overflow
  have hpos : (0 : ℚ) < 10 ^ 308 := by positivity
  generalize (10 : ℚ) ^ 308 = p at hv hmax hpos
  linarith

theorem exists_powerOfTen {n : ℕ} (hn : n ≤ 308) : ∃ p, Nearest (10 ^ n) p :=
  exists_nearest (by positivity) (lt_overflow_of_le (pow_le_pow_right₀ (by norm_num) hn))

/-- The powers of ten up to the twenty-second are doubles. -/
theorem value_powerOfTen {n : ℕ} (hn : n ≤ 22) {p : Magnitude} (hp : Nearest (10 ^ n) p) :
    p.value = 10 ^ n := by
  have hsplit : ((5 ^ n : ℕ) : ℚ) * 2 ^ (n : ℤ) = 10 ^ n := by
    rw [zpow_natCast, Nat.cast_pow, ← mul_pow]
    norm_num
  have hfits : 5 ^ n < 2 ^ 53 := (Nat.pow_le_pow_right (by decide) hn).trans_lt (by norm_num)
  have hrange : (10 : ℚ) ^ n < overflow :=
    lt_overflow_of_le (pow_le_pow_right₀ (by norm_num) (by omega))
  obtain ⟨x, hx⟩ := exists_value_eq hfits (by omega) (hsplit ▸ hrange)
  rw [hsplit] at hx
  rw [hp.unique (hx ▸ Nearest.self x), hx]

/-! ## Steps -/

section

variable {f p : Magnitude} {e : ℤ}

theorem scale?_of_nonneg (hf : 0 < f.value) (he : 0 ≤ e ∧ e ≤ 308)
    (hp : Nearest (10 ^ e.toNat) p) : scale? f e = f.mul? p := by
  rw [scale?, if_neg (value_pos_iff.1 hf), if_neg (by omega), if_pos he.1,
    powerOfTen?_eq_some_iff.2 hp]
  rfl

theorem scale?_zero (x : Magnitude) : scale? x 0 = some x := by
  by_cases hx : 0 < x.value
  · obtain ⟨p, hp⟩ := exists_powerOfTen (Nat.zero_le 308)
    rw [scale?_of_nonneg hx ⟨le_rfl, by decide⟩ hp, mul?_eq_some_iff,
      value_powerOfTen (by decide) hp, pow_zero, mul_one]
    exact Nearest.self x
  · rw [scale?, if_pos (by simpa [value_pos_iff] using hx)]

theorem scale?_of_neg (hf : 0 < f.value) (he : -308 ≤ e ∧ e < 0)
    (hp : Nearest (10 ^ (-e).toNat) p) : scale? f e = f.div? p := by
  have hwhole : ((-e).toNat - 1) / 308 = 0 := by omega
  simp only [scale?, if_neg (value_pos_iff.1 hf), if_neg (show ¬ 308 < e by omega),
    if_neg (show ¬ 0 ≤ e by omega), hwhole, divideByGreatest, Nat.mul_zero, Nat.sub_zero,
    powerOfTen?_eq_some_iff.2 hp]
  rfl

/-- Far down there is a division more. -/
theorem scale?_of_deep {g z : Magnitude} (hf : 0 < f.value) (he : -616 ≤ e ∧ e < -308)
    (hg : Nearest (10 ^ 308) g) (hz : f.div? g = some z) (hp : Nearest (10 ^ (-e - 308).toNat) p) :
    scale? f e = z.div? p := by
  have hwhole : ((-e).toNat - 1) / 308 = 1 := by omega
  have hrest : (-e).toNat - 308 * 1 = (-e - 308).toNat := by omega
  simp only [scale?, if_neg (value_pos_iff.1 hf), if_neg (show ¬ 308 < e by omega),
    if_neg (show ¬ 0 ≤ e by omega), hwhole, hrest, divideByGreatest, powerOfTen?_eq_some_iff.2 hg,
    powerOfTen?_eq_some_iff.2 hp, Option.bind_eq_bind, Option.bind_some, hz]

end

namespace Number

variable {w : ℕ} {e : ℤ} {f p x : Magnitude}

theorem scaled?_eq (hf : Nearest w f) (e : ℤ) : scaled? w e = scale? f e := by
  have hround : ofRatio? w 1 = some f := by
    rw [ofRatio?_eq_some_iff one_pos, Nat.cast_one, div_one]
    exact hf
  rw [scaled?, hround]
  rfl

theorem scaled?_zero (e : ℤ) : scaled? 0 e = some .zero := by
  rw [scaled?_eq (by simpa using nearest_zero)]
  rfl

/-- A number without a power of ten behind its digits is the double nearest to them. -/
theorem scaled?_of_nearest (hx : Nearest w x) : scaled? w 0 = some x := by
  rw [scaled?_eq hx, scale?_zero]

/-- **The exact range.** Where the digits and the power of ten are doubles, the outcome is the
double nearest to the number. -/
theorem scaled?_of_exact (hf : f.value = w) (he : -22 ≤ e ∧ e ≤ 22)
    (hx : Nearest (w * 10 ^ e) x) : scaled? w e = some x := by
  rcases Nat.eq_zero_or_pos w with rfl | hw
  · rw [Nat.cast_zero, zero_mul] at hx
    rw [scaled?_zero, hx.unique nearest_zero]
  have hpos : 0 < f.value := by
    rw [hf]
    exact_mod_cast hw
  rw [scaled?_eq (hf ▸ Nearest.self f)]
  by_cases hsign : 0 ≤ e
  · obtain ⟨p, hp⟩ := exists_powerOfTen (show e.toNat ≤ 308 by omega)
    have hvalue := value_powerOfTen (by omega) hp
    rw [scale?_of_nonneg hpos (by omega) hp, mul?_eq_some_iff, hf, hvalue,
      ← ten_zpow_of_nonneg hsign]
    exact hx
  · obtain ⟨p, hp⟩ := exists_powerOfTen (show (-e).toNat ≤ 308 by omega)
    have hvalue := value_powerOfTen (by omega) hp
    have hpos' : 0 < p.value := by
      rw [hvalue]
      positivity
    rw [scale?_of_neg hpos (by omega) hp, div?_eq_some_iff hpos', hf, hvalue,
      ← mul_ten_zpow_of_neg _ (by omega)]
    exact hx

/-! ## Precision -/

section

variable {n : ℕ}

theorem within_natCast (hw : 0 < w) (hf : Nearest w f) : Within 1 f.value w := by
  have hone : (2 : ℚ) ^ (-1022 : ℤ) ≤ 2 ^ (0 : ℤ) := two_zpow_le (by norm_num)
  rw [zpow_zero] at hone
  exact hf.within (hone.trans (by exact_mod_cast hw))

theorem within_powerOfTen (hp : Nearest (10 ^ n) p) : Within 1 p.value (10 ^ n) := by
  have hone : (2 : ℚ) ^ (-1022 : ℤ) ≤ 2 ^ (0 : ℤ) := two_zpow_le (by norm_num)
  rw [zpow_zero] at hone
  exact hp.within (hone.trans (one_le_pow₀ (by norm_num)))

theorem value_pos_of_natCast (hw : 0 < w) (hf : Nearest w f) : 0 < f.value :=
  (within_natCast hw hf).pos (Nat.cast_pos.2 hw)

theorem value_pos_of_powerOfTen (hp : Nearest (10 ^ n) p) : 0 < p.value :=
  (within_powerOfTen hp).pos (by positivity)

theorem within_product (hw : 0 < w) (hf : Nearest w f) (hp : Nearest (10 ^ n) p) :
    Within 2 (f.value * p.value) (w * 10 ^ n) :=
  (within_natCast hw hf).mul (within_powerOfTen hp) f.value_nonneg p.value_nonneg
    (Nat.cast_nonneg w) (by positivity)

theorem within_quotient (hw : 0 < w) (hf : Nearest w f) (hp : Nearest (10 ^ n) p) :
    Within 2 (f.value / p.value) (w / 10 ^ n) :=
  (within_natCast hw hf).div (within_powerOfTen hp) f.value_nonneg (value_pos_of_powerOfTen hp)
    (Nat.cast_nonneg w) (by positivity)

end

/-- What is few roundings away from a number in range is rounded, and to a double that is few steps
away. -/
theorem exists_nearest_of_within {k : ℕ} {v t : ℚ} (hk : k ≤ 8) (hv : 0 < v) (hx : Nearest v x)
    (h : Within k t v) (ht : t < overflow)
    (hstep : (k + 1 / 4) * (v / 2 ^ 53) ≤ 17 / 4 * 2 ^ x.exponent) :
    ∃ y, Nearest t y ∧ |y.value - x.value| ≤ 5 * 2 ^ x.exponent := by
  have hpos := h.pos hv
  obtain ⟨y, hy⟩ := exists_nearest hpos.le ht
  exact ⟨y, hy, hx.abs_sub_le_five hv hpos hy ((h.abs_sub_le hk hv.le).trans hstep)⟩

/-- Up to four roundings are allowed for at any size. -/
theorem four_le_steps {k : ℕ} {v : ℚ} (hk : k ≤ 4) (hv : 0 < v) (hx : Nearest v x) :
    (k + 1 / 4) * (v / 2 ^ 53) ≤ 17 / 4 * 2 ^ x.exponent := by
  have hk' : (k : ℚ) ≤ 4 := by exact_mod_cast hk
  have hstep := hx.div_le_step hv
  have hpos : 0 ≤ v / 2 ^ 53 := by positivity
  exact mul_le_mul (by linarith) hstep hpos (by norm_num)

theorem within_lt_overflow {k : ℕ} {v t : ℚ} (hk : k ≤ 8) (ht : 0 ≤ t) (h : Within k t v)
    (hv : v ≤ 10 ^ 308) : t < overflow := by
  have hpow : (2 / 3 : ℚ) ≤ (1 - 1 / 2 ^ 53) ^ k := by interval_cases k <;> norm_num
  have hle := (mul_le_mul_of_nonneg_left hpow ht).trans h.upper
  have hmax := ten_pow_308_lt_overflow
  generalize (10 : ℚ) ^ 308 = p at hv hmax
  linarith

theorem mul_ten_zpow_le (hw' : w < 10 ^ 17) {k : ℤ} (he : e ≤ k) :
    (w : ℚ) * 10 ^ e ≤ 10 ^ (17 + k) := by
  have hlarge : (w : ℚ) ≤ 10 ^ (17 : ℤ) := by
    rw [zpow_ofNat]
    exact_mod_cast hw'.le
  have hpow : (10 : ℚ) ^ e ≤ 10 ^ k := zpow_le_zpow_right₀ (by norm_num) he
  rw [zpow_add₀ (by norm_num)]
  exact mul_le_mul hlarge hpow (by positivity) (by positivity)

theorem mul_ten_zpow_le_ten_pow_308 (hw' : w < 10 ^ 17) (he : e ≤ 291) :
    (w : ℚ) * 10 ^ e ≤ 10 ^ 308 := by
  have h := mul_ten_zpow_le hw' he
  rwa [show (17 + 291 : ℤ) = (308 : ℕ) by rfl, zpow_natCast] at h

theorem natCast_le_ten_pow_308 (hw' : w < 10 ^ 17) : (w : ℚ) ≤ 10 ^ 308 := by
  have h := mul_ten_zpow_le_ten_pow_308 hw' (show (0 : ℤ) ≤ 291 by decide)
  rwa [zpow_zero, mul_one] at h

/-! ### Range -/

theorem exponent_le (hw : 0 < w) (he : 0 ≤ e) (hv : (w : ℚ) * 10 ^ e < overflow) : e ≤ 308 := by
  by_contra hcon
  rw [ten_zpow_of_nonneg he] at hv
  have hlt := lt_of_mul_ten_pow_lt hv
  have hpow : 10 ^ 309 ≤ 10 ^ e.toNat := pow_le_pow_right₀ (by decide) (by omega)
  have hle : 10 ^ e.toNat ≤ w * 10 ^ e.toNat := Nat.le_mul_of_pos_left _ hw
  have hbound : (2 ^ 54 - 1) * 2 ^ 970 < 10 ^ 309 := by
    rw [pow_mul 2 97 10, pow_mul 10 103 3]
    norm_num
  omega

/-- Seventeen digits further down than that are rounded to zero. -/
theorem le_exponent (hw' : w < 10 ^ 17) (hx₀ : 0 < x.value) (hx : Nearest (w * 10 ^ e) x) :
    -616 ≤ e := by
  by_contra hcon
  have hv : (w : ℚ) * 10 ^ e < 2 ^ (-1075 : ℤ) := by
    refine (mul_ten_zpow_le hw' (show e ≤ -617 by omega)).trans_lt ?_
    have hlt : (2 : ℚ) ^ 1075 < 10 ^ 600 := by
      rw [pow_mul 2 43 25, pow_mul 10 24 25]
      exact pow_lt_pow_left₀ (by norm_num) (by norm_num) (by decide)
    have hinv := inv_strictAnti₀ (by positivity) hlt
    rwa [← zpow_natCast, ← zpow_natCast, ← zpow_neg, ← zpow_neg] at hinv
  have hzero := hx.unique (nearest_zero_of_lt (by positivity) hv)
  rw [hzero, value] at hx₀
  simp [zero] at hx₀

/-- From that power of ten on, the numbers below the bound leave room for two roundings. -/
theorem mul_lt_overflow_of_le (hw : 0 < w) (hf : Nearest w f) {n : ℕ} (hn : 293 ≤ n)
    (hv : (w : ℚ) * 10 ^ n < overflow) (hp : Nearest (10 ^ n) p) :
    f.value * p.value < overflow := by
  have hdigits : w * 10 ^ (n - 293) ≤ 1797693134862315 := by
    have hbound : (2 ^ 54 - 1) * 2 ^ 970 ≤ 1797693134862316 * 10 ^ 293 := by
      rw [pow_mul 2 97 10, pow_add 10 200 93]
      norm_num
    have hlt := (lt_of_mul_ten_pow_lt hv).trans_le hbound
    rw [← pow_sub_mul_pow 10 hn, ← mul_assoc] at hlt
    have := Nat.lt_of_mul_lt_mul_right hlt
    omega
  have hle : w * 10 ^ n ≤ 1797693134862315 * 10 ^ 293 := by
    rw [← pow_sub_mul_pow 10 hn, ← mul_assoc]
    exact Nat.mul_le_mul_right _ hdigits
  have hroom : ((w * 10 ^ n : ℕ) : ℚ) < overflow * (1 - 1 / 2 ^ 53) ^ 2 := by
    refine natCast_lt_overflow_mul ((Nat.mul_le_mul_right _ hle).trans_lt ?_)
    rw [pow_mul 2 97 10, pow_add 10 200 93]
    norm_num
  rw [Nat.cast_mul, Nat.cast_pow, Nat.cast_ofNat] at hroom
  have hsq : (0 : ℚ) < (1 - 1 / 2 ^ 53) ^ 2 := by norm_num
  exact lt_of_mul_lt_mul_right ((within_product hw hf hp).upper.trans_lt hroom) hsq.le

/-- At the power of ten before, all of them but the last one do. -/
theorem mul_lt_overflow_of_eq (hlast : w ≤ 17976931348623157) (hf : Nearest w f)
    (hp : Nearest (10 ^ 292) p) : f.value * p.value < overflow := by
  have hdigits : f.value ≤ (17976931348623156 : ℕ) := by
    have hround : ofRatio? 17976931348623157 1 =
        some ⟨8988465674311578, 1, by decide, by decide, by decide⟩ := by decide
    have hnearest := (ofRatio?_eq_some_iff one_pos).1 hround
    rw [Nat.cast_one, div_one] at hnearest
    refine (hf.mono hnearest (Nat.cast_le.2 hlast)).trans (le_of_eq ?_)
    norm_num [value]
  have hroom : ((17976931348623156 * 10 ^ 292 : ℕ) : ℚ) < overflow * (1 - 1 / 2 ^ 53) ^ 1 := by
    apply natCast_lt_overflow_mul
    rw [pow_mul 2 97 10, pow_add 10 200 92]
    norm_num
  rw [Nat.cast_mul, Nat.cast_pow 10] at hroom
  have hone : (0 : ℚ) < (1 - 1 / 2 ^ 53) ^ 1 := by norm_num
  refine lt_of_mul_lt_mul_right (lt_of_le_of_lt ?_ hroom) hone.le
  rw [mul_assoc]
  refine mul_le_mul hdigits ?_ (mul_nonneg p.value_nonneg hone.le) (Nat.cast_nonneg _)
  exact_mod_cast (within_powerOfTen hp).upper

/-! ### Steps with their errors -/

section

variable (hw : 0 < w) (hw' : w < 10 ^ 17) (hf : Nearest w f)

include hw hw' hf

theorem exists_scaled?_of_neg (he : -308 ≤ e ∧ e < 0) (hx : Nearest (w * 10 ^ e) x) :
    ∃ y, scaled? w e = some y ∧ |y.value - x.value| ≤ 5 * 2 ^ x.exponent := by
  obtain ⟨p, hp⟩ := exists_powerOfTen (show (-e).toNat ≤ 308 by omega)
  have hppos := value_pos_of_powerOfTen hp
  have hw₀ : (0 : ℚ) < w := Nat.cast_pos.2 hw
  have hv : (0 : ℚ) < w * 10 ^ e := by positivity
  have hquot : Within 2 (f.value / p.value) (w * 10 ^ e) := by
    rw [mul_ten_zpow_of_neg _ he.2]
    exact within_quotient hw hf hp
  have hlt := within_lt_overflow (by decide) (hquot.pos hv).le hquot
    (mul_ten_zpow_le_ten_pow_308 hw' (by omega))
  obtain ⟨y, hy, hclose⟩ :=
    exists_nearest_of_within (by decide) hv hx hquot hlt (four_le_steps (by decide) hv hx)
  refine ⟨y, ?_, hclose⟩
  rw [scaled?_eq hf, scale?_of_neg (value_pos_of_natCast hw hf) he hp, div?_eq_some_iff hppos]
  exact hy

/-- The first of two divisions: the quotient is large enough to be exact to seven roundings, and to
three if the final one is not among the least doubles. -/
theorem exists_first_quotient {g : Magnitude} (hg : Nearest (10 ^ 308) g) :
    ∃ z, f.div? g = some z ∧ Within 7 z.value (w / 10 ^ 308) ∧
      (2 ^ (-1021 : ℤ) ≤ (w : ℚ) / 10 ^ 308 → Within 3 z.value (w / 10 ^ 308)) := by
  have hone : (1 : ℚ) ≤ w := by exact_mod_cast hw
  have hgpos := value_pos_of_powerOfTen hg
  have hquot := within_quotient hw hf hg
  have hsmall : (w : ℚ) / 10 ^ 308 ≤ 10 ^ 308 := by
    refine (div_le_self (by linarith) (one_le_pow₀ (by norm_num))).trans ?_
    exact natCast_le_ten_pow_308 hw'
  have hpos : 0 < f.value / g.value := hquot.pos (by positivity)
  obtain ⟨z, hz⟩ := exists_nearest hpos.le (within_lt_overflow (by decide) hpos.le hquot hsmall)
  refine ⟨z, (div?_eq_some_iff hgpos).2 hz, ?_, fun hlarge => ?_⟩
  · refine (hz.within_five (le_trans ?_ hquot.lower)).trans hquot
    have hle : (1 : ℚ) / 10 ^ 308 ≤ w / 10 ^ 308 := by gcongr
    have hsq : (2 / 3 : ℚ) ≤ (1 - 1 / 2 ^ 53) ^ 2 := by norm_num
    exact two_zpow_le_inv_ten_pow_308.trans (mul_le_mul hle hsq (by norm_num) (by positivity))
  · refine (hz.within (le_trans ?_ hquot.lower)).trans hquot
    have hpow : (2 : ℚ) ^ (-1021 : ℤ) = 2 * 2 ^ (-1022 : ℤ) := by
      rw [show (-1021 : ℤ) = -1022 + 1 by norm_num, two_zpow_succ]
    have hsq : (1 / 2 : ℚ) ≤ (1 - 1 / 2 ^ 53) ^ 2 := by norm_num
    refine le_trans (le_of_eq ?_) (mul_le_mul hlarge hsq (by norm_num) (by positivity))
    rw [hpow]
    ring

theorem exists_scaled?_of_deep (he : -616 ≤ e ∧ e < -308) (hx : Nearest (w * 10 ^ e) x) :
    ∃ y, scaled? w e = some y ∧ |y.value - x.value| ≤ 5 * 2 ^ x.exponent := by
  obtain ⟨g, hg⟩ := exists_powerOfTen (le_refl 308)
  obtain ⟨p, hp⟩ := exists_powerOfTen (show (-e - 308).toNat ≤ 308 by omega)
  obtain ⟨z, hz, hseven, hthree⟩ := exists_first_quotient hw hw' hf hg
  have hw₀ : (0 : ℚ) < w := Nat.cast_pos.2 hw
  have hppos := value_pos_of_powerOfTen hp
  have hzpos : 0 < z.value := hseven.pos (by positivity)
  have hv : (0 : ℚ) < w * 10 ^ e := by positivity
  have hsplit : (w : ℚ) * 10 ^ e = w / 10 ^ 308 / 10 ^ (-e - 308).toNat := by
    rw [mul_ten_zpow_of_neg _ (by omega), div_div, ← pow_add]
    congr 2
    omega
  -- among the least doubles more roundings are allowed for
  obtain ⟨k, hk, hwithin, hstep⟩ : ∃ k ≤ 7, Within k z.value (w / 10 ^ 308) ∧
      ((k + 1 : ℕ) + 1 / 4) * ((w : ℚ) * 10 ^ e / 2 ^ 53) ≤ 17 / 4 * 2 ^ x.exponent := by
    by_cases hlarge : (2 : ℚ) ^ (-1024 : ℤ) ≤ w * 10 ^ e
    · refine ⟨3, by decide, hthree ?_, four_le_steps (by decide) hv hx⟩
      have hten : (10 : ℚ) ^ 1 ≤ 10 ^ (-e - 308).toNat :=
        pow_le_pow_right₀ (by norm_num) (by omega)
      have hmul : (w : ℚ) * 10 ^ e * 10 ^ (-e - 308).toNat = w / 10 ^ 308 := by
        rw [hsplit]
        exact div_mul_cancel₀ _ (by positivity)
      have hpow : (2 : ℚ) ^ (-1021 : ℤ) = 2 ^ 3 * 2 ^ (-1024 : ℤ) := by
        rw [← two_zpow_add_natCast]
        norm_num
      rw [← hmul, hpow, mul_comm]
      exact mul_le_mul hlarge ((by norm_num : (2 : ℚ) ^ 3 ≤ 10 ^ 1).trans hten) (by norm_num) hv.le
    · refine ⟨7, le_rfl, hseven, ?_⟩
      have hpow : (2 : ℚ) ^ (-1024 : ℤ) = 2 ^ 50 * 2 ^ (-1074 : ℤ) := by
        rw [← two_zpow_add_natCast]
        norm_num
      have hleast := two_zpow_le x.inRange.1
      have hpos := two_zpow_pos (-1074)
      rw [hpow, not_le] at hlarge
      push_cast
      linarith
  have hquot : Within (k + 1) (z.value / p.value) (w * 10 ^ e) := by
    rw [hsplit]
    exact hwithin.div (within_powerOfTen hp) hzpos.le hppos (by positivity) (by positivity)
  have hlt := within_lt_overflow (by omega) (by positivity) hquot
    (mul_ten_zpow_le_ten_pow_308 hw' (by omega))
  obtain ⟨y, hy, hclose⟩ := exists_nearest_of_within (by omega) hv hx hquot hlt hstep
  refine ⟨y, ?_, hclose⟩
  rw [scaled?_eq hf, scale?_of_deep (value_pos_of_natCast hw hf) he hg hz hp,
    div?_eq_some_iff hppos]
  exact hy

theorem exists_scaled?_of_nonneg (he : 0 ≤ e) (hlast : e = 292 → w ≤ 17976931348623157)
    (hx : Nearest (w * 10 ^ e) x) :
    ∃ y, scaled? w e = some y ∧ |y.value - x.value| ≤ 5 * 2 ^ x.exponent := by
  have he' := exponent_le hw he hx.below
  obtain ⟨p, hp⟩ := exists_powerOfTen (show e.toNat ≤ 308 by omega)
  have hw₀ : (0 : ℚ) < w := Nat.cast_pos.2 hw
  have hv : (0 : ℚ) < w * 10 ^ e := by positivity
  have hprod : Within 2 (f.value * p.value) (w * 10 ^ e) := by
    rw [ten_zpow_of_nonneg he]
    exact within_product hw hf hp
  have hlt : f.value * p.value < overflow := by
    rcases lt_trichotomy e 292 with hsmall | rfl | hlarge
    · exact within_lt_overflow (by decide) (hprod.pos hv).le hprod
        (mul_ten_zpow_le_ten_pow_308 hw' (by omega))
    · exact mul_lt_overflow_of_eq (hlast rfl) hf hp
    · have hbelow := hx.below
      rw [ten_zpow_of_nonneg he] at hbelow
      exact mul_lt_overflow_of_le hw hf (by omega) hbelow hp
  obtain ⟨y, hy, hclose⟩ :=
    exists_nearest_of_within (by decide) hv hx hprod hlt (four_le_steps (by decide) hv hx)
  refine ⟨y, ?_, hclose⟩
  rw [scaled?_eq hf, scale?_of_nonneg (value_pos_of_natCast hw hf) ⟨he, he'⟩ hp,
    mul?_eq_some_iff]
  exact hy

end

/-- **Precision.** Up to seventeen digits with a power of ten are read if they are rounded to a
double other than zero, but for some close to the greatest double. What is read is at most five
steps away from that double. -/
theorem exists_scaled? (hw : 0 < w) (hw' : w < 10 ^ 17) (hx₀ : 0 < x.value)
    (hlast : e = 292 → w ≤ 17976931348623157) (hx : Nearest (w * 10 ^ e) x) :
    ∃ y, scaled? w e = some y ∧ |y.value - x.value| ≤ 5 * 2 ^ x.exponent := by
  have hlow := le_exponent hw' hx₀ hx
  obtain ⟨f, hf⟩ :=
    exists_nearest (Nat.cast_nonneg w) (lt_overflow_of_le (natCast_le_ten_pow_308 hw'))
  rcases lt_or_ge e 0 with hneg | hnonneg
  · rcases lt_or_ge e (-308) with hdeep | hshallow
    · exact exists_scaled?_of_deep hw hw' hf ⟨hlow, hdeep⟩ hx
    · exact exists_scaled?_of_neg hw hw' hf ⟨hshallow, hneg⟩ hx
  · exact exists_scaled?_of_nonneg hw hw' hf hnonneg hlast hx

end Number
end JoinPlan.Json
