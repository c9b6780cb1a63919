import Mathlib.Data.Int.Log
import Mathlib.Data.Rat.Floor
import Mathlib.Tactic

/-!
# Rounding to a binary precision

The result of a floating-point operation is its exact result, rounded to the nearest
number with `p` significant bits; of two such numbers the even one is taken.  The range
of the exponent is not limited here: overflow and subnormal numbers are left to those
who need them.
-/

namespace Mikanos.Numeric

variable {p : Nat} {q : ℚ}

/-- The nearest integer, the even one of two. -/
def roundEven (q : ℚ) : Int :=
  let below := ⌊q⌋
  if q - below < 1 / 2 then below
  else if 1 / 2 < q - below then below + 1
  else if below % 2 = 0 then below
  else below + 1

theorem abs_roundEven_sub (q : ℚ) : |(roundEven q : ℚ) - q| ≤ 1 / 2 := by
  have lower := Int.floor_le q
  have upper := Int.lt_floor_add_one q
  rw [roundEven, abs_le]
  split_ifs <;> push_cast <;> constructor <;> linarith

@[simp]
theorem roundEven_intCast (n : Int) : roundEven n = n := by
  simp [roundEven]

/-- The distance of neighbouring numbers of `p` significant bits at `q`. -/
def ulp (p : Nat) (q : ℚ) : ℚ :=
  2 ^ (Int.log 2 |q| + 1 - p)

theorem ulp_pos (p : Nat) (q : ℚ) : 0 < ulp p q :=
  zpow_pos (by norm_num) _

/-- Rounding to `p` significant bits. -/
def roundTo (p : Nat) (q : ℚ) : ℚ :=
  SignType.sign q * (roundEven (|q| / ulp p q) * ulp p q)

@[simp]
theorem roundTo_zero (p : Nat) : roundTo p 0 = 0 := by
  simp [roundTo]

theorem roundTo_neg (p : Nat) (q : ℚ) : roundTo p (-q) = -roundTo p q := by
  rw [roundTo, roundTo, ulp, ulp, abs_neg, Left.sign_neg]
  push_cast
  ring

theorem half_ulp_le (nonzero : q ≠ 0) : ulp p q / 2 ≤ |q| / 2 ^ p := by
  have positive : 0 < |q| := abs_pos.mpr nonzero
  have low : (2 : ℚ) ^ Int.log 2 |q| ≤ |q| := by
    have := Int.zpow_log_le_self (b := 2) (by norm_num) positive
    exact_mod_cast this
  have split : ulp p q = 2 ^ Int.log 2 |q| * 2 / 2 ^ p := by
    rw [ulp, zpow_sub₀ two_ne_zero, zpow_add₀ two_ne_zero, zpow_one, zpow_natCast]
  rw [split, show (2 : ℚ) ^ Int.log 2 |q| * 2 / 2 ^ p / 2 = 2 ^ Int.log 2 |q| / 2 ^ p by ring]
  exact div_le_div_of_nonneg_right low (by positivity)

/-- The relative error of rounding. -/
theorem abs_roundTo_sub_le (p : Nat) (q : ℚ) : |roundTo p q - q| ≤ |q| / 2 ^ p := by
  by_cases zero : q = 0
  · simp [zero]
  · have positive := ulp_pos p q
    have whole : (SignType.sign q : ℚ) * |q| = q := sign_mul_abs q
    have difference : roundTo p q - q =
        SignType.sign q * ((roundEven (|q| / ulp p q) - |q| / ulp p q) * ulp p q) := by
      calc
        roundTo p q - q = roundTo p q - SignType.sign q * |q| := by rw [whole]
        _ = SignType.sign q * ((roundEven (|q| / ulp p q) - |q| / ulp p q) * ulp p q) := by
          rw [roundTo, sub_mul, div_mul_cancel₀ _ positive.ne']
          ring
    have unit : |(SignType.sign q : ℚ)| = 1 := by
      rcases lt_or_gt_of_ne zero with below | above
      · simp [sign_neg below]
      · simp [sign_pos above]
    rw [difference, abs_mul, unit, one_mul, abs_mul, abs_of_pos positive]
    calc
      |(roundEven (|q| / ulp p q) : ℚ) - |q| / ulp p q| * ulp p q ≤ 1 / 2 * ulp p q :=
        mul_le_mul_of_nonneg_right (abs_roundEven_sub _) positive.le
      _ = ulp p q / 2 := by ring
      _ ≤ |q| / 2 ^ p := half_ulp_le zero

/-- Integers with few bits are not rounded. -/
theorem roundTo_intCast {n : Int} (small : |n| < 2 ^ p) : roundTo p n = n := by
  by_cases zero : n = 0
  · simp [zero]
  · have positive : (0 : ℚ) < |(n : ℚ)| := abs_pos.mpr (by exact_mod_cast zero)
    have few : Int.log 2 |(n : ℚ)| + 1 ≤ p := by
      rw [Int.add_one_le_iff, ← Int.lt_zpow_iff_log_lt (by norm_num) positive]
      push_cast
      rw [zpow_natCast]
      exact_mod_cast small
    rcases Int.eq_ofNat_of_zero_le (sub_nonneg.mpr few) with ⟨k, exponent⟩
    have unit : ulp p n = (2 ^ k)⁻¹ := by
      rw [ulp, show Int.log 2 |(n : ℚ)| + 1 - p = -(k : Int) by omega, zpow_neg, zpow_natCast]
    have scaled : |(n : ℚ)| / ulp p n = ((|n| * 2 ^ k : Int) : ℚ) := by
      rw [unit, div_inv_eq_mul]
      push_cast
      rfl
    rw [roundTo, scaled, roundEven_intCast, ← scaled, div_mul_cancel₀ _ (ulp_pos p n).ne', sign_mul_abs]

end Mikanos.Numeric
