/-
Numbers cut toward zero.

`toZero` drops the fraction of a number, as a cast to an integer does.  `truncate p` keeps
`p` significant binary digits: the unit of the last of them depends on how large the number
is, and what is below it is dropped.  A float that goes into a format with fewer digits
without rounding is cut like this.
-/
import Mathlib.Data.Int.Log
import Mathlib.Algebra.Order.Floor.Ring
import Mathlib.Algebra.Order.Floor.Semifield
import Mathlib.Tactic.Ring

namespace Lib

variable {K : Type*} [Field K] [LinearOrder K] [IsStrictOrderedRing K] [FloorRing K]

/-! ### Integers -/

/-- The integer part, toward zero. -/
def toZero (q : K) : ℤ := if 0 ≤ q then ⌊q⌋ else ⌈q⌉

omit [IsStrictOrderedRing K] in
theorem toZero_of_nonneg {q : K} (h : 0 ≤ q) : toZero q = ⌊q⌋ := if_pos h

@[simp] theorem toZero_intCast (n : ℤ) : toZero (n : K) = n := by
  rw [toZero]
  split
  · exact Int.floor_intCast n
  · exact Int.ceil_intCast n

@[simp] theorem toZero_neg (q : K) : toZero (-q) = -toZero q := by
  rcases lt_trichotomy q 0 with hneg | rfl | hpos
  · rw [toZero_of_nonneg (by linarith), toZero, if_neg (by linarith), Int.floor_neg]
  · simp [toZero]
  · rw [toZero, if_neg (by linarith), toZero_of_nonneg hpos.le, Int.ceil_neg]

/-! ### Significant digits -/

/-- The unit of the last of `p` significant binary digits. -/
def lastPlace (p : ℕ) (q : K) : K := 2 ^ (Int.log 2 |q| + 1 - p)

/-- The number with `p` significant binary digits, cut toward zero. -/
def truncate (p : ℕ) (q : K) : K := toZero (q / lastPlace p q) * lastPlace p q

@[simp] theorem truncate_neg (p : ℕ) (q : K) : truncate p (-q) = -truncate p q := by
  rw [truncate, lastPlace, abs_neg, ← lastPlace, neg_div, toZero_neg, Int.cast_neg, neg_mul, truncate]

omit [FloorRing K] in
theorem two_pow_mul_zpow (k : ℕ) (e : ℤ) :
    ((2 ^ k : ℕ) : K) * 2 ^ e = 2 ^ ((k : ℤ) + e) := by
  rw [zpow_add₀ two_ne_zero, zpow_natCast, Nat.cast_pow, Nat.cast_two]

/-- The exponent of a number with `n + 1` binary digits. -/
theorem log_scaled {m n : ℕ} (hlow : 2 ^ n ≤ m) (hhigh : m < 2 ^ (n + 1)) (e : ℤ) :
    Int.log 2 ((m : K) * 2 ^ e) = n + e := by
  have htwo : (0 : K) < 2 ^ e := zpow_pos (by norm_num) e
  have hm : (0 : K) < m := Nat.cast_pos.mpr (Nat.lt_of_lt_of_le (Nat.two_pow_pos n) hlow)
  have hpos : (0 : K) < (m : K) * 2 ^ e := mul_pos hm htwo
  apply le_antisymm
  · refine Int.lt_add_one_iff.mp ((Int.lt_zpow_iff_log_lt (by decide) hpos).mp ?_)
    rw [show (n : ℤ) + e + 1 = ((n + 1 : ℕ) : ℤ) + e by push_cast; ring, Nat.cast_two,
      ← two_pow_mul_zpow]
    exact mul_lt_mul_of_pos_right (Nat.cast_lt.mpr hhigh) htwo
  · refine (Int.zpow_le_iff_le_log (by decide) hpos).mp ?_
    rw [Nat.cast_two, ← two_pow_mul_zpow]
    exact mul_le_mul_of_nonneg_right (Nat.cast_le.mpr hlow) htwo.le

/-- **A number of `k` digits more than are kept loses the last `k`.** -/
theorem truncate_scaled {m n k : ℕ} (hlow : 2 ^ (n + k) ≤ m) (hhigh : m < 2 ^ (n + k + 1)) (e : ℤ) :
    truncate (n + 1) ((m : K) * 2 ^ e) = ((m / 2 ^ k * 2 ^ k : ℕ) : K) * 2 ^ e := by
  have htwo : (0 : K) < 2 ^ e := zpow_pos (by norm_num) e
  have hplace : lastPlace (n + 1) ((m : K) * 2 ^ e) = ((2 ^ k : ℕ) : K) * 2 ^ e := by
    rw [lastPlace, abs_of_nonneg (mul_nonneg (Nat.cast_nonneg m) htwo.le), log_scaled hlow hhigh,
      show ((n + k : ℕ) : ℤ) + e + 1 - ((n + 1 : ℕ) : ℤ) = (k : ℤ) + e by push_cast; ring,
      two_pow_mul_zpow]
  have hquotient : (m : K) * 2 ^ e / (((2 ^ k : ℕ) : K) * 2 ^ e) = (m : K) / ((2 ^ k : ℕ) : K) :=
    mul_div_mul_right _ _ htwo.ne'
  have hfloor : toZero ((m : K) / ((2 ^ k : ℕ) : K)) = ((m / 2 ^ k : ℕ) : ℤ) := by
    rw [toZero_of_nonneg (div_nonneg (Nat.cast_nonneg m) (Nat.cast_nonneg _)),
      ← Int.natCast_floor_eq_floor (div_nonneg (Nat.cast_nonneg m) (Nat.cast_nonneg _)),
      Nat.floor_div_eq_div]
  rw [truncate, hplace, hquotient, hfloor, Int.cast_natCast, Nat.cast_mul, mul_assoc]

end Lib
