/-
Binary floats as bit patterns.

A format has a sign, an exponent of `eb` bits and a mantissa of `mb` bits, in this order
from the highest bit down.  The highest exponent is that of infinities and of what is no
number; the lowest has no hidden digit.  Conversions between formats move the fields, so
what a conversion does is said by the fields before and after, and what that means for the
number by its value.
-/
import Mathlib.Data.Rat.Floor
import Netudp.Lib.Fields
import Netudp.Lib.Truncate

namespace Lib

variable {eb mb w : ℕ} {bits bits' : BitVec w} {s e m : ℕ}

/-! ### Fields -/

/-- The fields of a pattern: sign, exponent and mantissa. -/
structure FloatFields (eb mb : ℕ) (bits : BitVec w) (s e m : ℕ) : Prop where
  sign_lt : s < 2
  exponent_lt : e < 2 ^ eb
  mantissa_lt : m < 2 ^ mb
  toNat_eq : bits.toNat = s * 2 ^ (eb + mb) + e * 2 ^ mb + m

theorem FloatFields.eq (h : FloatFields eb mb bits s e m) (h' : FloatFields eb mb bits' s e m) :
    bits = bits' :=
  BitVec.eq_of_toNat_eq (h.toNat_eq.trans h'.toNat_eq.symm)

theorem FloatFields.word (h : FloatFields eb mb bits s e m) :
    bits.toNat = m + 2 ^ mb * (e + 2 ^ eb * s) := by
  rw [h.toNat_eq, Nat.pow_add]
  ring

theorem FloatFields.mantissa (h : FloatFields eb mb bits s e m) : bits.toNat % 2 ^ mb = m := by
  rw [h.word, Nat.add_mul_mod_self_left, Nat.mod_eq_of_lt h.mantissa_lt]

theorem FloatFields.above (h : FloatFields eb mb bits s e m) :
    bits.toNat / 2 ^ mb = e + 2 ^ eb * s := by
  rw [h.word, Nat.add_mul_div_left _ _ (Nat.two_pow_pos mb), Nat.div_eq_of_lt h.mantissa_lt,
    Nat.zero_add]

theorem FloatFields.exponent (h : FloatFields eb mb bits s e m) :
    bits.toNat / 2 ^ mb % 2 ^ eb = e := by
  rw [h.above, Nat.add_mul_mod_self_left, Nat.mod_eq_of_lt h.exponent_lt]

theorem FloatFields.sign (h : FloatFields eb mb bits s e m) :
    bits.toNat / 2 ^ mb / 2 ^ eb = s := by
  rw [h.above, Nat.add_mul_div_left _ _ (Nat.two_pow_pos eb), Nat.div_eq_of_lt h.exponent_lt,
    Nat.zero_add]

theorem or_fields (eb mb s : ℕ) (he : e < 2 ^ eb) (hm : m < 2 ^ mb) :
    s * 2 ^ (eb + mb) ||| e * 2 ^ mb ||| m = s * 2 ^ (eb + mb) + e * 2 ^ mb + m := by
  have hlow : e * 2 ^ mb < 2 ^ (eb + mb) := by
    rw [Nat.pow_add]
    exact Nat.mul_lt_mul_of_pos_right he (Nat.two_pow_pos mb)
  have hupper : s * 2 ^ (eb + mb) + e * 2 ^ mb = (s * 2 ^ eb + e) * 2 ^ mb := by
    rw [Nat.pow_add]
    ring
  rw [mul_two_pow_or hlow, hupper, mul_two_pow_or hm]

theorem exists_floatFields (eb mb : ℕ) (bits : BitVec (eb + mb + 1)) :
    ∃ s e m, FloatFields eb mb bits s e m := by
  have hlt := bits.isLt
  refine ⟨bits.toNat / 2 ^ mb / 2 ^ eb, bits.toNat / 2 ^ mb % 2 ^ eb, bits.toNat % 2 ^ mb, ?_,
    Nat.mod_lt _ (Nat.two_pow_pos eb), Nat.mod_lt _ (Nat.two_pow_pos mb), ?_⟩
  · rw [Nat.div_div_eq_div_mul, ← Nat.pow_add, Nat.add_comm mb, Nat.div_lt_iff_lt_mul (Nat.two_pow_pos _),
      ← Nat.pow_succ']
    exact hlt
  · have hlow := Nat.mod_add_div bits.toNat (2 ^ mb)
    have hhigh := Nat.mod_add_div (bits.toNat / 2 ^ mb) (2 ^ eb)
    calc bits.toNat
        = bits.toNat % 2 ^ mb + 2 ^ mb * (bits.toNat / 2 ^ mb % 2 ^ eb +
            2 ^ eb * (bits.toNat / 2 ^ mb / 2 ^ eb)) := by rw [hhigh, hlow]
      _ = _ := by ring

/-! ### Values -/

/-- What is taken from an exponent. -/
def bias (eb : ℕ) : ℤ := 2 ^ (eb - 1) - 1

/-- The number without its sign. -/
def magnitude (eb mb e m : ℕ) : ℚ :=
  if e = 0 then (m : ℚ) * 2 ^ (1 - bias eb - mb)
  else ((2 ^ mb + m : ℕ) : ℚ) * 2 ^ (e - bias eb - mb)

/-- The number of a pattern, unless it is an infinity or no number. -/
def floatValue (eb mb : ℕ) (bits : BitVec w) : Option ℚ :=
  let s := bits.toNat / 2 ^ mb / 2 ^ eb
  let e := bits.toNat / 2 ^ mb % 2 ^ eb
  let m := bits.toNat % 2 ^ mb
  if e = 2 ^ eb - 1 then none
  else if s = 1 then some (-magnitude eb mb e m)
  else some (magnitude eb mb e m)

theorem FloatFields.value (h : FloatFields eb mb bits s e m) :
    floatValue eb mb bits = if e = 2 ^ eb - 1 then none
      else if s = 1 then some (-magnitude eb mb e m) else some (magnitude eb mb e m) := by
  simp only [floatValue, h.sign, h.exponent, h.mantissa]

theorem magnitude_nonneg (eb mb e m : ℕ) : 0 ≤ magnitude eb mb e m := by
  have hscale : ∀ (n : ℕ) (z : ℤ), (0 : ℚ) ≤ (n : ℚ) * 2 ^ z := fun n z =>
    mul_nonneg (Nat.cast_nonneg n) (zpow_nonneg zero_le_two z)
  rw [magnitude]
  split
  · exact hscale _ _
  · exact hscale _ _

theorem magnitude_lt (eb e : ℕ) (hm : m < 2 ^ mb) :
    magnitude eb mb e m < 2 ^ ((e : ℤ) + 1 - bias eb) := by
  have hscale : ∀ {n k : ℕ} {z : ℤ}, n < 2 ^ k → (n : ℚ) * 2 ^ z < 2 ^ ((k : ℤ) + z) := by
    intro n k z hn
    rw [← two_pow_mul_zpow]
    exact mul_lt_mul_of_pos_right (Nat.cast_lt.mpr hn) (zpow_pos two_pos z)
  rw [magnitude]
  split
  · rename_i hzero
    rw [hzero, show ((0 : ℕ) : ℤ) + 1 - bias eb = (mb : ℤ) + (1 - bias eb - mb) by push_cast; ring]
    exact hscale hm
  · rw [show (e : ℤ) + 1 - bias eb = ((mb + 1 : ℕ) : ℤ) + (e - bias eb - mb) by push_cast; ring]
    exact hscale (by rw [Nat.pow_succ]; omega)

theorem le_magnitude (eb : ℕ) (he : e ≠ 0) (mb m : ℕ) :
    2 ^ ((e : ℤ) - bias eb) ≤ magnitude eb mb e m := by
  have hunit : (0 : ℚ) ≤ 2 ^ ((e : ℤ) - bias eb - mb) := zpow_nonneg (by norm_num) _
  rw [magnitude, if_neg he]
  calc (2 : ℚ) ^ ((e : ℤ) - bias eb)
      = ((2 ^ mb : ℕ) : ℚ) * 2 ^ ((e : ℤ) - bias eb - mb) := by
        rw [two_pow_mul_zpow, add_sub_cancel]
    _ ≤ ((2 ^ mb + m : ℕ) : ℚ) * 2 ^ ((e : ℤ) - bias eb - mb) :=
        mul_le_mul_of_nonneg_right (Nat.cast_le.mpr (Nat.le_add_right _ _)) hunit

/-- **A mantissa without its last digits** is the number with that many less. -/
theorem truncate_magnitude (eb : ℕ) {n k : ℕ} (he : e ≠ 0) (hm : m < 2 ^ (n + k)) :
    truncate (n + 1) (magnitude eb (n + k) e m) = magnitude eb (n + k) e (m / 2 ^ k * 2 ^ k) := by
  have hhigh : 2 ^ (n + k) + m < 2 ^ (n + k + 1) := by
    rw [Nat.pow_succ]
    omega
  have hcut : (2 ^ (n + k) + m) / 2 ^ k * 2 ^ k = 2 ^ (n + k) + m / 2 ^ k * 2 ^ k := by
    rw [Nat.pow_add, Nat.mul_comm, Nat.add_comm, Nat.add_mul_div_right _ _ (Nat.two_pow_pos k)]
    ring
  rw [magnitude, if_neg he, truncate_scaled (Nat.le_add_right _ _) hhigh, hcut, magnitude,
    if_neg he]

end Lib
