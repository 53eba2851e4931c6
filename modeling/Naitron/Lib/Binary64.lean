/-
  Naitron.Lib.Binary64

  Rounding of a rational number to the nearest binary64 value, ties to even,
  subnormals included.  Overflow is left to the reader of the result.
-/

import Mathlib.Data.Int.Log
import Mathlib.Data.Rat.Floor
import Mathlib.Tactic.Linarith
import Mathlib.Tactic.NormNum

namespace Naitron.Lib

/-- Round to the nearest integer, a half to the even one. -/
def roundHalfEven (q : ℚ) : ℤ :=
  if q - ⌊q⌋ < 1 / 2 then ⌊q⌋
  else if 1 / 2 < q - ⌊q⌋ then ⌊q⌋ + 1
  else ⌊q⌋ + ⌊q⌋ % 2

theorem roundHalfEven_intCast (k : ℤ) : roundHalfEven k = k := by
  rw [roundHalfEven, Int.floor_intCast, sub_self, if_pos (by norm_num)]

/-- Exponent of the last of the 53 bits of a binary64 near `q`. -/
def ulpExp (q : ℚ) : ℤ := max (Int.log 2 |q| - 52) (-1074)

/-- The binary64 nearest to `q`. -/
def nearest64 (q : ℚ) : ℚ := roundHalfEven (q / 2 ^ ulpExp q) * 2 ^ ulpExp q

/-- A number on the grid stays where it is. -/
theorem nearest64_of_grid {q : ℚ} {k : ℤ} (h : q = k * 2 ^ ulpExp q) : nearest64 q = q := by
  have hpos : (2 : ℚ) ^ ulpExp q ≠ 0 := zpow_ne_zero _ (by norm_num)
  have hdiv : q / 2 ^ ulpExp q = k := by
    rw [div_eq_iff hpos]
    exact h
  rw [nearest64, hdiv, roundHalfEven_intCast]
  exact h.symm

/-- Integers up to `2 ^ 53` are binary64 values. -/
theorem nearest64_intCast {v : ℤ} (h : |v| ≤ 2 ^ 53) : nearest64 v = v := by
  by_cases hexp : ulpExp (v : ℚ) ≤ 0
  · -- the grid is at least as fine as the integers
    obtain ⟨n, hn⟩ := Int.eq_ofNat_of_zero_le (show 0 ≤ -ulpExp (v : ℚ) by omega)
    refine nearest64_of_grid (k := v * 2 ^ n) ?_
    have hulp : ulpExp (v : ℚ) = -(n : ℤ) := by omega
    rw [hulp, zpow_neg, zpow_natCast]
    push_cast
    rw [mul_assoc, mul_inv_cancel₀ (pow_ne_zero n (by norm_num)), mul_one]
  · -- only `2 ^ 53` and its negative are left
    have hlog : 53 ≤ Int.log 2 |(v : ℚ)| := by
      rw [ulpExp] at hexp
      omega
    have hne : (0 : ℚ) < |(v : ℚ)| := by
      refine abs_pos.mpr fun hzero => ?_
      rw [hzero, abs_zero, Int.log_zero_right] at hlog
      omega
    have hlow : (2 : ℚ) ^ (53 : ℤ) ≤ |(v : ℚ)| :=
      (zpow_le_zpow_right₀ (by norm_num) hlog).trans (Int.zpow_log_le_self (by norm_num) hne)
    have hcast : |(v : ℚ)| = ((|v| : ℤ) : ℚ) := (Int.cast_abs).symm
    have habs : |v| = 2 ^ 53 := by
      refine le_antisymm h ?_
      rw [hcast] at hlow
      exact_mod_cast hlow
    have hexact : Int.log 2 |(v : ℚ)| = 53 := by
      rw [hcast, habs]
      have hpow : (((2 ^ 53 : ℤ) : ℤ) : ℚ) = ((2 : ℕ) : ℚ) ^ (53 : ℤ) := by norm_num
      rw [hpow, Int.log_zpow (by norm_num)]
    have hulp : ulpExp (v : ℚ) = 1 := by
      rw [ulpExp, hexact]
      rfl
    rcases abs_eq (by norm_num) |>.mp habs with rfl | rfl
    · refine nearest64_of_grid (k := 2 ^ 52) ?_
      rw [hulp]
      norm_num
    · refine nearest64_of_grid (k := -2 ^ 52) ?_
      rw [hulp]
      norm_num

end Naitron.Lib
