/-!
# Sets of characters

A property of characters is given by the closed ranges of code points that have it.

Results:
* `inRanges_of_apart`: what lies apart from all ranges is not.
-/
namespace JoinPlan.Text

/-- Whether the code point of a character lies in one of the closed ranges. -/
def inRanges (ranges : List (Nat × Nat)) (c : Char) : Bool :=
  ranges.any fun r => r.1 ≤ c.toNat && c.toNat ≤ r.2

/-- No range reaches from `low` to `high`, so nothing between them is in the set. -/
theorem inRanges_of_apart {ranges : List (Nat × Nat)} {c : Char} (low high : Nat)
    (h : (ranges.all fun r => r.2 < low || high < r.1) = true)
    (hl : low ≤ c.toNat) (hh : c.toNat ≤ high) : inRanges ranges c = false := by
  rw [inRanges, List.any_eq_false]
  intro r hr
  have apart := List.all_eq_true.mp h r hr
  simp only [Bool.or_eq_true, decide_eq_true_eq] at apart
  simp only [Bool.and_eq_true, decide_eq_true_eq]
  omega

end JoinPlan.Text
