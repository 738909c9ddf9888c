import Mathlib.Algebra.Order.Floor.Semifield
import Mathlib.Data.Rat.Floor
import JoinPlan.Proofs.Number.Precision
import JoinPlan.Proofs.Number.ReadBack
/-!
# How many digits a double needs

On the grid of seventeen digits one of the two neighbours of a double is less than a half of
`10 ^ -16` of it away, and that is too close for it to be rounded to any other double. So the search
for the shortest decimal ends there, and what is written never has more than seventeen digits.

Results:
* `Magnitude.decimalOrder_spec`: the decimal order of a double.
* `Magnitude.nearest_of_close`: what is close enough to a double is rounded to it.
* `Magnitude.coefficient_shortest_lt`: the shortest decimal has at most seventeen digits.
* `Magnitude.shortest_eq`: how a shortest decimal is computed.
-/
namespace JoinPlan

namespace Magnitude

/-! ## The decimal order -/

/-- Powers of two bases are compared by one pair of powers of them. -/
theorem zpow_le_zpow_of_pow_le {x y : ℚ} (hx : 1 ≤ x) (hy : 0 < y) {m n : ℕ} (hn : n ≠ 0)
    (h : x ^ m ≤ y ^ n) {a b : ℤ} (hb : 0 ≤ b) (hab : n * a ≤ m * b) : x ^ a ≤ y ^ b := by
  have hx₀ : 0 < x := zero_lt_one.trans_le hx
  refine le_of_pow_le_pow_left₀ hn (by positivity) ?_
  calc (x ^ a) ^ n = x ^ (n * a) := by rw [← zpow_natCast, ← zpow_mul, mul_comm]
    _ ≤ x ^ (m * b) := zpow_le_zpow_right₀ hx hab
    _ = (x ^ m) ^ b := by rw [zpow_mul, zpow_natCast]
    _ ≤ (y ^ n) ^ b := zpow_le_zpow_left₀ hb (by positivity) h
    _ = (y ^ b) ^ n := by rw [← zpow_natCast, ← zpow_natCast, ← zpow_mul, ← zpow_mul, mul_comm]

theorem ten_zpow_le_two_zpow {a b : ℤ} (hb : 0 ≤ b) (h : 103 * a ≤ 31 * b) :
    (10 : ℚ) ^ a ≤ 2 ^ b :=
  zpow_le_zpow_of_pow_le (m := 31) (n := 103) (by norm_num) two_pos (by decide) (by norm_num) hb h

theorem two_zpow_le_ten_zpow {a b : ℤ} (hb : 0 ≤ b) (h : 19 * a ≤ 63 * b) :
    (2 : ℚ) ^ a ≤ 10 ^ b :=
  zpow_le_zpow_of_pow_le (m := 63) (n := 19) (by norm_num) (by norm_num) (by decide) (by norm_num)
    hb h

/-- The decimal order that is guessed from a binary one. -/
def guess (b : ℤ) : ℤ := b * 30103 / 100000

/-- In the range of the doubles the guess is at most one off. -/
theorem guess_spec {b : ℤ} (h : -1074 ≤ b ∧ b < 1024) :
    (10 : ℚ) ^ (guess b - 1) ≤ 2 ^ b ∧ (2 : ℚ) ^ (b + 1) ≤ 10 ^ (guess b + 2) := by
  rw [guess]
  rcases le_or_gt 0 b with hb | hb
  · exact ⟨ten_zpow_le_two_zpow hb (by omega), two_zpow_le_ten_zpow (by omega) (by omega)⟩
  · -- for a negative order the reciprocals are compared
    have hten := two_zpow_le_ten_zpow (a := -b) (b := 1 - b * 30103 / 100000) (by omega) (by omega)
    have htwo := ten_zpow_le_two_zpow (a := -(b * 30103 / 100000 + 2)) (b := -(b + 1)) (by omega)
      (by omega)
    rw [show 1 - b * 30103 / 100000 = -(b * 30103 / 100000 - 1) by ring] at hten
    rw [zpow_neg, zpow_neg, inv_le_inv₀ (by positivity) (by positivity)] at hten htwo
    exact ⟨hten, htwo⟩

theorem value_lt_two_zpow (x : Magnitude) : x.value < 2 ^ (1024 : ℤ) :=
  lt_of_lt_of_le x.value_lt (two_zpow_le (by have := x.inRange.2; omega))

/-- The least positive double. -/
theorem two_zpow_le_value {x : Magnitude} (hx : 0 < x.value) : 2 ^ (-1074 : ℤ) ≤ x.value := by
  have hz : zero.value = 0 := by simp [value, zero]
  have h := step_le_of_lt (show zero.value < x.value from hz ▸ hx)
  rw [hz, zero_add] at h
  exact h

/-- The order of a double is the power of ten of its first digit. -/
theorem decimalOrder_spec {x : Magnitude} (hx : 0 < x.value) :
    (10 : ℚ) ^ decimalOrder x.numerator x.denominator ≤ x.value ∧
      x.value < 10 ^ (decimalOrder x.numerator x.denominator + 1) := by
  have hn := numerator_pos hx
  have hd := x.denominator_pos
  obtain ⟨hlow, hhigh⟩ := binaryOrder_spec hn hd
  have hiff := mul_pow_le_mul_pow_iff x.numerator (b := 10) (by decide) hd
  rw [← value_eq_div] at hlow hhigh hiff
  have hrange : -1074 ≤ binaryOrder x.numerator x.denominator ∧
      binaryOrder x.numerator x.denominator < 1024 := by
    have h₁ := lt_of_le_of_lt (two_zpow_le_value hx) hhigh
    have h₂ := lt_of_le_of_lt hlow x.value_lt_two_zpow
    rw [zpow_lt_zpow_iff_right₀ (by norm_num)] at h₁ h₂
    omega
  obtain ⟨hguess, hguess'⟩ := guess_spec hrange
  have hlow' := hguess.trans hlow
  have hhigh' := hhigh.trans_le hguess'
  rw [guess] at hlow' hhigh'
  simp only [decimalOrder, hiff, Nat.cast_ofNat, decide_eq_true_eq]
  generalize binaryOrder x.numerator x.denominator * 30103 / 100000 = g at hlow' hhigh' ⊢
  split_ifs with h₁ h₂
  · exact ⟨h₁, by rw [add_assoc]; exact hhigh'⟩
  · exact ⟨h₂, not_le.1 h₁⟩
  · exact ⟨hlow', by rw [sub_add_cancel]; exact not_le.1 h₂⟩

/-! ## Close numbers -/

theorem value_le_greatest (x : Magnitude) : x.value ≤ (2 ^ 53 - 1) * 2 ^ (971 : ℤ) :=
  mul_le_mul x.significand_le (two_zpow_le x.inRange.2) (two_zpow_pos _).le (by norm_num)

/-- Below a double there is no other one closer than `2 ^ -53` of it. -/
theorem gap_below {x y : Magnitude} (h : y.value < x.value) :
    x.value / 2 ^ 53 ≤ x.value - y.value := by
  have hpos := two_zpow_pos x.exponent
  rcases lt_or_ge y.exponent x.exponent with hlt | hge
  · -- in a lower binade the steps are at most half as large
    have hfull : (2 : ℚ) ^ 52 ≤ x.significand := by
      have := y.inRange.1
      exact_mod_cast x.normal.resolve_left (by omega)
    have hstep := two_zpow_le (show y.exponent + 1 ≤ x.exponent by omega)
    rw [two_zpow_succ] at hstep
    have hy : y.value ≤ (2 ^ 53 - 1) * (2 ^ x.exponent / 2) :=
      mul_le_mul y.significand_le (by linarith) (two_zpow_pos _).le (by norm_num)
    have hx := mul_le_mul_of_nonneg_right hfull hpos.le
    rw [← value] at hx
    linarith
  · have hstep := step_le_of_lt h
    have hle := two_zpow_le hge
    have hlt := mul_lt_mul_of_pos_right x.significand_lt hpos
    rw [← value] at hlt
    rw [div_le_iff₀ (by norm_num)]
    linarith

/-- What is less than `2 ^ -54` of a double away is rounded to it. -/
theorem nearest_of_close {v : ℚ} {x : Magnitude} (h : |v - x.value| < x.value / 2 ^ 54) :
    Nearest v x := by
  obtain ⟨h₁, h₂⟩ := abs_lt.1 h
  have hfar : ∀ y : Magnitude, y ≠ x → |v - x.value| < |v - y.value| := by
    intro y hne
    have hvalue : y.value ≠ x.value := fun he => hne (value_injective he)
    have hgap : x.value / 2 ^ 53 ≤ |x.value - y.value| := by
      rcases lt_or_gt_of_ne hvalue with hlt | hlt
      · exact (gap_below hlt).trans (le_abs_self _)
      · rw [abs_sub_comm]
        refine le_trans ?_ ((gap_below hlt).trans (le_abs_self _))
        gcongr
    have htri := abs_sub_le x.value v y.value
    rw [abs_sub_comm x.value v] at htri
    linarith
  refine ⟨?_, fun y => ?_, fun y hne he => absurd he.symm (hfar y hne).ne⟩
  · have hle := x.value_le_greatest
    have hpos := two_zpow_pos 971
    rw [overflow]
    generalize (2 : ℚ) ^ (971 : ℤ) = p at hle hpos ⊢
    linarith
  · rcases eq_or_ne y x with rfl | hne
    · exact le_rfl
    · exact (hfar y hne).le

/-! ## Seventeen digits -/

section

variable {x : Magnitude} {tie : Tie} {e : ℤ} {d : Decimal}

/-- The decimal below a double on the grid of an exponent. -/
def below (x : Magnitude) (e : ℤ) : ℕ :=
  x.numerator * Nat.pow 10 (-e).toNat / (x.denominator * Nat.pow 10 e.toNat)

theorem below_spec (x : Magnitude) (e : ℤ) :
    (below x e : ℚ) ≤ x.value / 10 ^ e ∧ x.value / 10 ^ e < below x e + 1 := by
  have hratio := scaled_ratio (b := 10) (by decide) x.numerator x.denominator e
  rw [← value_eq_div, Nat.cast_ofNat] at hratio
  rw [← hratio, below, ← Nat.floor_div_eq_div (K := ℚ)]
  exact ⟨Nat.floor_le (by positivity), Nat.lt_floor_add_one _⟩

theorem coefficient_pick_le (h : pick x tie e = some d) : d.coefficient ≤ below x e + 1 := by
  have hcases : d = ⟨below x e, e⟩ ∨ d = ⟨below x e + 1, e⟩ := by
    simp only [pick] at h
    generalize hb : x.numerator * _ / _ = b at h
    rw [show below x e = b from hb]
    split at h
    · split at h
      · split at h
        · exact .inl (Option.some.inj h).symm
        · exact .inr (Option.some.inj h).symm
        · have := Option.some.inj h
          split at this
          · exact .inl this.symm
          · exact .inr this.symm
        · exact .inr (Option.some.inj h).symm
      · exact .inl (Option.some.inj h).symm
    · split at h
      · exact .inr (Option.some.inj h).symm
      · cases h
  rcases hcases with rfl | rfl
  · exact Nat.le_succ _
  · exact le_rfl

/-- One neighbour on the grid is at most half a step away. -/
theorem exists_pick (tie : Tie) (h : 10 ^ e / 2 < x.value / 2 ^ 54) :
    ∃ d, pick x tie e = some d := by
  obtain ⟨hlow, hhigh⟩ := below_spec x e
  have hpos : (0 : ℚ) < 10 ^ e := by positivity
  rw [le_div_iff₀ hpos] at hlow
  rw [div_lt_iff₀ hpos, add_mul, one_mul] at hhigh
  have hreads : (⟨below x e, e⟩ : Decimal).toMagnitude? = some x ∨
      (⟨below x e + 1, e⟩ : Decimal).toMagnitude? = some x := by
    rw [Decimal.toMagnitude?_eq_some_iff, Decimal.toMagnitude?_eq_some_iff, Decimal.value,
      Decimal.value, Nat.cast_add_one]
    rcases le_total (x.value - below x e * 10 ^ e) (10 ^ e / 2) with hle | hle
    · left
      refine nearest_of_close (lt_of_le_of_lt ?_ h)
      rw [abs_sub_comm, abs_of_nonneg (by linarith)]
      exact hle
    · right
      refine nearest_of_close (lt_of_le_of_lt ?_ h)
      rw [add_mul, one_mul, abs_of_nonneg (by linarith)]
      linarith
  simp only [pick]
  generalize hb : x.numerator * _ / _ = b
  rw [show below x e = b from hb] at hreads
  split
  · split
    · split <;> exact ⟨_, rfl⟩
    · exact ⟨_, rfl⟩
  · rename_i hlower
    rw [if_pos (by simpa using hreads.resolve_left (by simpa using hlower))]
    exact ⟨_, rfl⟩

end

end Magnitude

namespace Decimal

theorem coefficient_strip_le (d : Decimal) : d.strip.coefficient ≤ d.coefficient := by
  fun_induction strip d with
  | case1 d h ih => exact ih.trans (Nat.div_le_self _ _)
  | case2 d h => exact le_rfl

/-- A power of ten does not survive. -/
theorem coefficient_strip_lt {d : Decimal} {k : ℕ} (hk : k ≠ 0) (h : d.coefficient ≤ 10 ^ k) :
    d.strip.coefficient < 10 ^ k := by
  have hpos : 0 < 10 ^ k := by positivity
  rw [strip]
  split
  · rename_i hzero
    have := coefficient_strip_le ⟨d.coefficient / 10, d.exponent + 1⟩
    refine lt_of_le_of_lt this ?_
    change d.coefficient / 10 < 10 ^ k
    omega
  · rename_i hzero
    refine lt_of_le_of_ne h fun he => hzero ⟨by omega, ?_⟩
    rw [he]
    exact Nat.mod_eq_zero_of_dvd (dvd_pow_self 10 hk)

end Decimal

namespace Magnitude

/-- **Seventeen digits.** The shortest decimal of a double has at most seventeen digits. -/
theorem coefficient_shortest_lt {x : Magnitude} (hx : 0 < x.value) (tie : Tie) :
    (x.shortest tie).coefficient < 10 ^ 17 := by
  obtain ⟨hlow, hhigh⟩ := decimalOrder_spec hx
  simp only [shortest]
  generalize decimalOrder x.numerator x.denominator = order at hlow hhigh ⊢
  split
  · rename_i d h
    obtain ⟨n, hn, hpick⟩ := List.exists_of_findSome?_eq_some h
    refine Decimal.coefficient_strip_lt (by decide) ((coefficient_pick_le hpick).trans ?_)
    have hbelow : (below x (order - n) : ℚ) < (10 ^ (n + 1) : ℕ) := by
      refine lt_of_le_of_lt (below_spec x _).1 ?_
      rw [div_lt_iff₀ (by positivity), Nat.cast_pow, Nat.cast_ofNat, ← zpow_natCast,
        ← zpow_add₀ (by norm_num)]
      rwa [show ((n + 1 : ℕ) : ℤ) + (order - n) = order + 1 by push_cast; ring]
    have hle : 10 ^ (n + 1) ≤ 10 ^ 17 :=
      Nat.pow_le_pow_right (by decide) (List.mem_range.1 hn)
    exact (Nat.cast_lt.1 hbelow).trans_le hle
  · -- the grid of seventeen digits is fine enough
    rename_i h
    have hfine : (10 : ℚ) ^ (order - 16) / 2 < x.value / 2 ^ 54 := by
      have hsplit : (10 : ℚ) ^ order = 10 ^ (order - 16) * 10 ^ 16 := by
        rw [← zpow_natCast, ← zpow_add₀ (by norm_num)]
        norm_num
      have hpos : (0 : ℚ) < 10 ^ (order - 16) := by positivity
      rw [hsplit] at hlow
      linarith
    obtain ⟨d, hd⟩ := exists_pick tie hfine
    have hnone := List.findSome?_eq_none_iff.1 h 16 (by decide)
    rw [Nat.cast_ofNat, hd] at hnone
    cases hnone

/-- The shortest decimal where a grid is known to have one without zeros at its end. -/
theorem shortest_eq {x : Magnitude} {tie : Tie} {d : Decimal}
    (h : ((List.range 17).findSome? fun n : Nat =>
      pick x tie (decimalOrder x.numerator x.denominator - n)) = some d)
    (hd : d.coefficient % 10 ≠ 0) : x.shortest tie = d := by
  simp only [shortest, h]
  rw [Decimal.strip, dif_neg (fun hzero => hd hzero.2)]

end Magnitude
end JoinPlan
