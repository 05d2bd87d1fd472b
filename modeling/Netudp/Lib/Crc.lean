/-
Reflected cyclic redundancy checks.

The remainder is shifted down one bit at a time, and the polynomial is added, that is xored,
whenever the bit that falls out is set.  A shift is linear, and as long as only zeros fall
out it is nothing but a shift.  So `n` shifts of a remainder come to `n` shifts of its low
`n` bits, which a table can hold, and the rest of it moved down.
-/
import Mathlib.Data.BitVec

namespace Lib

variable {w : Nat} (poly : BitVec w)

/-- One bit. -/
def crcBit (c : BitVec w) : BitVec w := (c >>> 1) ^^^ if c.getLsbD 0 then poly else 0#w

/-- So many bits. -/
def crcBits (n : Nat) (c : BitVec w) : BitVec w := (crcBit poly)^[n] c

theorem crcBit_xor (x y : BitVec w) :
    crcBit poly (x ^^^ y) = crcBit poly x ^^^ crcBit poly y := by
  have hpoly : (if (x ^^^ y).getLsbD 0 then poly else 0#w) =
      (if x.getLsbD 0 then poly else 0#w) ^^^ (if y.getLsbD 0 then poly else 0#w) := by
    rw [BitVec.getLsbD_xor]
    cases x.getLsbD 0 with
    | false => simp
    | true =>
      cases y.getLsbD 0 with
      | false => simp
      | true => simp
  rw [crcBit, crcBit, crcBit, BitVec.ushiftRight_xor_distrib, hpoly]
  ac_rfl

theorem crcBits_succ (n : Nat) (c : BitVec w) :
    crcBits poly (n + 1) c = crcBit poly (crcBits poly n c) :=
  Function.iterate_succ_apply' _ n c

theorem crcBits_xor (n : Nat) (x y : BitVec w) :
    crcBits poly n (x ^^^ y) = crcBits poly n x ^^^ crcBits poly n y := by
  induction n with
  | zero => rfl
  | succ n ih => rw [crcBits_succ, crcBits_succ, crcBits_succ, ih, crcBit_xor]

/-- While only zeros fall out, the remainder moves down. -/
theorem crcBits_of_low_zero {c : BitVec w} (n : Nat) (h : ∀ i < n, c.getLsbD i = false) :
    crcBits poly n c = c >>> n := by
  induction n with
  | zero => exact (BitVec.ushiftRight_zero c).symm
  | succ n ih =>
    have hout : (c >>> n).getLsbD 0 = false := by
      rw [BitVec.getLsbD_ushiftRight, Nat.add_zero]
      exact h n (Nat.lt_succ_self n)
    rw [crcBits_succ, ih fun i hi => h i (Nat.lt_succ_of_lt hi), crcBit, hout,
      if_neg Bool.false_ne_true, BitVec.xor_zero, BitVec.shiftRight_add]

/-- The bits of a remainder from `n` on, where they are. -/
theorem getLsbD_high (c : BitVec w) (n i : Nat) :
    ((c >>> n) <<< n).getLsbD i = (decide (n ≤ i) && c.getLsbD i) := by
  rw [BitVec.getLsbD_shiftLeft, BitVec.getLsbD_ushiftRight]
  by_cases hi : i < w
  · by_cases hn : n ≤ i
    · simp [hi, hn, Nat.not_lt.mpr hn]
    · simp [hn, Nat.lt_of_not_le hn]
  · simp [hi, BitVec.getLsbD_of_ge c i (Nat.le_of_not_lt hi)]

/-- **`n` bits at once**: the shifts of the low bits, and the rest moved down. -/
theorem crcBits_split (n : Nat) (c low : BitVec w)
    (hlow : ∀ i < w, low.getLsbD i = (decide (i < n) && c.getLsbD i)) :
    crcBits poly n c = crcBits poly n low ^^^ (c >>> n) := by
  have hsplit : c = low ^^^ ((c >>> n) <<< n) := by
    refine BitVec.eq_of_getLsbD_eq fun i hi => ?_
    rw [BitVec.getLsbD_xor, hlow i hi, getLsbD_high]
    by_cases hn : n ≤ i
    · simp [hn, Nat.not_lt.mpr hn]
    · simp [hn, Nat.lt_of_not_le hn]
  have hhigh : crcBits poly n ((c >>> n) <<< n) = c >>> n := by
    have hclear : ∀ i < n, ((c >>> n) <<< n).getLsbD i = false := by
      intro i hi
      rw [getLsbD_high, decide_eq_false (Nat.not_le.mpr hi), Bool.false_and]
    rw [crcBits_of_low_zero poly n hclear]
    refine BitVec.eq_of_getLsbD_eq fun i hi => ?_
    rw [BitVec.getLsbD_ushiftRight, getLsbD_high, BitVec.getLsbD_ushiftRight]
    simp
  calc crcBits poly n c
      = crcBits poly n (low ^^^ ((c >>> n) <<< n)) := by rw [← hsplit]
    _ = crcBits poly n low ^^^ (c >>> n) := by rw [crcBits_xor, hhigh]

end Lib
