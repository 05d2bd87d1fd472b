/-
The codecs of single values.

There are two varints, one of 64 bits in the replication codec and one of 32 bits in the
buffer API, and both give back what they were given.  The quantized forms of a float and of
a vector lose something, but only once: what has been through the codec is encoded as
before.  For a float the fields of the two formats say what that is, and where both have an
exponent for it the float is cut to the digits the shorter format has.
-/
import Mathlib.Data.Nat.Bitwise
import Netudp.Lib.BinaryFloat
import Netudp.Proofs.Buffer
import Netudp.Proofs.ReplicationCodec

namespace Netudp

open Lib NetudpBuffer

/-! ### Varints -/

/-- The position put back to where it was. -/
def NetudpBuffer.seek (b : NetudpBuffer) (position : Int) : NetudpBuffer :=
  { b with position := position }

theorem readVarint_writeVarint {b : NetudpBuffer} (hlow : -2 ^ 31 ≤ b.position)
    (hfive : b.position + 5 ≤ b.capacity) (hcapacity : b.capacity < 2 ^ 31) (v : Int32) :
    ((b.writeVarint v).seek b.position).readVarint = (v, b.writeVarint v) := by
  have hwrote := wrote_writeVarint hlow hcapacity hfive v
  have hlength := length_varintBytes 4 v.toUInt32.toNat
  have hnext : Next ((b.writeVarint v).seek b.position) (varintBytes 4 v.toUInt32.toNat) := by
    refine ⟨hlow, ?_, ?_, hwrote.contents⟩
    · show (b.writeVarint v).capacity < 2 ^ 31
      rwa [hwrote.capacity]
    · show b.position + _ ≤ (b.writeVarint v).capacity
      rw [hwrote.capacity]
      omega
  have hbehind : b.position + (varintBytes 4 v.toUInt32.toNat).length = (b.writeVarint v).position :=
    hwrote.position.symm
  rw [hnext.readVarint]
  show (v, (b.writeVarint v).seek (b.position + (varintBytes 4 v.toUInt32.toNat).length)) = _
  rw [hbehind]
  rfl

/-- **Both varints round trip.**  A 64-bit number, followed by whatever, is decoded to itself
and takes as many bytes as it was encoded in, ten at most.  A 32-bit number that was written
to a buffer with five bytes left is read from where it was written, and the reader stops
where the writer did. -/
theorem varints_round_trip :
    (∀ val < 2 ^ 64, ∀ rest : Bytes,
      varintDecode (varintEncode val ++ rest) = some (val, (varintEncode val).length) ∧
        (varintEncode val).length ≤ 10) ∧
    ∀ (b : NetudpBuffer) (v : Int32), -2 ^ 31 ≤ b.position → b.position + 5 ≤ b.capacity →
      b.capacity < 2 ^ 31 →
      ((b.writeVarint v).seek b.position).readVarint = (v, b.writeVarint v) := by
  refine ⟨fun val hval rest => ⟨varintDecode_encode hval rest, ?_⟩, ?_⟩
  · exact (length_varintEncodeFrom 9 val).1
  · exact fun b v hlow hfive hcapacity => readVarint_writeVarint hlow hfive hcapacity v

theorem longest_varints_round_trip :
    varintDecode (varintEncode (2 ^ 64 - 1) ++ [7]) = some (2 ^ 64 - 1, 10) ∧
      ((((acquire fun _ => 0).seek 1195).writeVarint (-1)).seek 1195).readVarint =
        (-1, ((acquire fun _ => 0).seek 1195).writeVarint (-1)) := by
  refine ⟨?_, varints_round_trip.2 ((acquire fun _ => 0).seek 1195) (-1) (by decide) (by decide)
    (by decide)⟩
  have hdecode := (varints_round_trip.1 (2 ^ 64 - 1) (by decide) [7]).1
  rw [hdecode]
  decide +kernel

/-! ### Half floats -/

theorem toNat_and_ones {w : Nat} (x mask : BitVec w) (k : Nat) (hmask : mask.toNat = 2 ^ k - 1) :
    (x &&& mask).toNat = x.toNat % 2 ^ k := by
  rw [BitVec.toNat_and, hmask, Nat.and_two_pow_sub_one_eq_mod]

theorem toNat_and_bit {w : Nat} (x mask : BitVec w) (k : Nat) (hmask : mask.toNat = 2 ^ k) :
    (x &&& mask).toNat = x.toNat / 2 ^ k % 2 * 2 ^ k := by
  rw [BitVec.toNat_and, hmask, Nat.and_two_pow, Nat.toNat_testBit]

section Half

variable {bits : BitVec 32} {h : BitVec 16} {s e m : Nat}

/-- What `f32_to_half` takes from a float. -/
theorem f32_fields (hf : FloatFields 8 23 bits s e m) :
    ((bits >>> 16) &&& 0x8000#32).toNat = s * 2 ^ 15 ∧ ((bits >>> 23) &&& 0xFF#32).toNat = e ∧
      ((bits >>> 13) &&& 0x3FF#32).toNat = m / 2 ^ 13 := by
  obtain ⟨hs, he, hm, hword⟩ := hf
  rw [toNat_and_bit _ _ 15 rfl, toNat_and_ones _ _ 8 rfl, toNat_and_ones _ _ 10 rfl,
    BitVec.toNat_ushiftRight, BitVec.toNat_ushiftRight, BitVec.toNat_ushiftRight,
    Nat.shiftRight_eq_div_pow, Nat.shiftRight_eq_div_pow, Nat.shiftRight_eq_div_pow]
  omega

/-- What is too small for a half float is zero. -/
theorem f32ToHalf_small (hf : FloatFields 8 23 bits s e m) (he : e ≤ 112) :
    FloatFields 5 10 (f32ToHalf bits) s 0 0 := by
  obtain ⟨hsign, hexp, hmant⟩ := f32_fields hf
  have hs := hf.sign_lt
  refine ⟨hs, by decide, by decide, ?_⟩
  simp only [f32ToHalf, hexp]
  rw [if_pos (by omega), BitVec.truncate_eq_setWidth, BitVec.toNat_setWidth, hsign]
  omega

theorem f32ToHalf_large (hf : FloatFields 8 23 bits s e m) (he : 143 ≤ e) :
    FloatFields 5 10 (f32ToHalf bits) s 31 0 := by
  obtain ⟨hsign, hexp, hmant⟩ := f32_fields hf
  have hs := hf.sign_lt
  refine ⟨hs, by decide, by decide, ?_⟩
  simp only [f32ToHalf, hexp]
  rw [if_neg (by omega), if_pos (by omega), BitVec.truncate_eq_setWidth, BitVec.toNat_setWidth,
    BitVec.toNat_or, hsign]
  have hword : s * 2 ^ 15 ||| 31 * 2 ^ 10 ||| 0 = s * 2 ^ 15 + 31 * 2 ^ 10 + 0 :=
    or_fields 5 10 s (by decide) (by decide)
  rw [Nat.or_zero] at hword
  show (s * 2 ^ 15 ||| 31 * 2 ^ 10) % 2 ^ 16 = _
  rw [hword]
  omega

theorem f32ToHalf_between (hf : FloatFields 8 23 bits s e m) (hlow : 112 < e) (hhigh : e < 143) :
    FloatFields 5 10 (f32ToHalf bits) s (e - 112) (m / 2 ^ 13) := by
  obtain ⟨hsign, hexp, hmant⟩ := f32_fields hf
  have hs := hf.sign_lt
  have hm := hf.mantissa_lt
  refine ⟨hs, by omega, by omega, ?_⟩
  simp only [f32ToHalf, hexp]
  have hshifted : (BitVec.ofInt 32 ((e : Int) - 127 + 15) <<< 10).toNat = (e - 112) * 2 ^ 10 := by
    rw [BitVec.toNat_shiftLeft, BitVec.toNat_ofInt, Nat.shiftLeft_eq]
    omega
  have hword : s * 2 ^ 15 ||| (e - 112) * 2 ^ 10 ||| m / 2 ^ 13 =
      s * 2 ^ 15 + (e - 112) * 2 ^ 10 + m / 2 ^ 13 := or_fields 5 10 s (by omega) (by omega)
  rw [if_neg (by omega), if_neg (by omega), BitVec.truncate_eq_setWidth, BitVec.toNat_setWidth,
    BitVec.toNat_or, BitVec.toNat_or, hsign, hmant, hshifted, hword]
  omega

/-- What `half_to_f32` takes from a half float. -/
theorem half_fields (hf : FloatFields 5 10 h s e m) :
    ((h &&& 0x8000#16).zeroExtend 32 <<< 16).toNat = s * 2 ^ 31 ∧
      (((h >>> 10) &&& 0x1F#16).zeroExtend 32).toNat = e ∧
      ((h &&& 0x3FF#16).zeroExtend 32 <<< 13).toNat = m * 2 ^ 13 := by
  obtain ⟨hs, he, hm, hword⟩ := hf
  simp only [BitVec.toNat_shiftLeft, BitVec.truncate_eq_setWidth, BitVec.toNat_setWidth,
    toNat_and_bit _ 0x8000#16 15 rfl, toNat_and_ones _ 0x1F#16 5 rfl,
    toNat_and_ones _ 0x3FF#16 10 rfl, BitVec.toNat_ushiftRight, Nat.shiftRight_eq_div_pow,
    Nat.shiftLeft_eq]
  omega

theorem halfToF32_zero (hf : FloatFields 5 10 h s 0 m) : FloatFields 8 23 (halfToF32 h) s 0 0 := by
  obtain ⟨hsign, hexp, -⟩ := half_fields hf
  refine ⟨hf.sign_lt, by decide, by decide, ?_⟩
  simp only [halfToF32]
  rw [if_pos (BitVec.eq_of_toNat_eq hexp), hsign]
  omega

/-- Infinities, and what is no number. -/
theorem halfToF32_inf (hf : FloatFields 5 10 h s 31 m) :
    FloatFields 8 23 (halfToF32 h) s 255 (m * 2 ^ 13) := by
  obtain ⟨hsign, hexp, hmant⟩ := half_fields hf
  have hm := hf.mantissa_lt
  refine ⟨hf.sign_lt, by decide, by omega, ?_⟩
  have hword : s * 2 ^ 31 ||| 255 * 2 ^ 23 ||| m * 2 ^ 13 =
      s * 2 ^ 31 + 255 * 2 ^ 23 + m * 2 ^ 13 := or_fields 8 23 s (by decide) (by omega)
  simp only [halfToF32]
  rw [if_neg ?_, if_pos (BitVec.eq_of_toNat_eq hexp), BitVec.toNat_or, BitVec.toNat_or, hsign, hmant]
  · exact hword
  · intro hzero
    rw [hzero] at hexp
    cases hexp

theorem halfToF32_between (hf : FloatFields 5 10 h s e m) (hlow : 0 < e) (hhigh : e < 31) :
    FloatFields 8 23 (halfToF32 h) s (e + 112) (m * 2 ^ 13) := by
  obtain ⟨hsign, hexp, hmant⟩ := half_fields hf
  have hm := hf.mantissa_lt
  refine ⟨hf.sign_lt, by omega, by omega, ?_⟩
  simp only [halfToF32]
  generalize ((h >>> 10) &&& 0x1F#16).zeroExtend 32 = exp at hexp
  have hshifted : ((exp - 15 + 127) <<< 23).toNat = (e + 112) * 2 ^ 23 := by
    rw [BitVec.toNat_shiftLeft, BitVec.toNat_add, BitVec.toNat_sub, hexp, Nat.shiftLeft_eq]
    show ((2 ^ 32 - 15 + e) % 2 ^ 32 + 127) % 2 ^ 32 * 2 ^ 23 % 2 ^ 32 = _
    omega
  have hzero : exp ≠ 0 := by
    rintro rfl
    exact hlow.ne hexp
  have hinf : exp ≠ 31 := by
    rintro rfl
    exact hhigh.ne' hexp
  rw [if_neg hzero, if_neg hinf, BitVec.toNat_or, BitVec.toNat_or, hsign, hmant, hshifted]
  exact or_fields 8 23 s (by omega) (by omega)

/-- **What has been a half float is the same half float again.** -/
theorem f32ToHalf_again (bits : BitVec 32) :
    f32ToHalf (halfToF32 (f32ToHalf bits)) = f32ToHalf bits := by
  obtain ⟨s, e, m, hf⟩ := exists_floatFields 8 23 bits
  by_cases hsmall : e ≤ 112
  · have hhalf := f32ToHalf_small hf hsmall
    exact (f32ToHalf_small (halfToF32_zero hhalf) (by decide)).eq hhalf
  by_cases hlarge : 143 ≤ e
  · have hhalf := f32ToHalf_large hf hlarge
    exact (f32ToHalf_large (halfToF32_inf hhalf) (by decide)).eq hhalf
  · have hhalf := f32ToHalf_between hf (by omega) (by omega)
    have hback := halfToF32_between hhalf (by omega) (by omega)
    have hagain := f32ToHalf_between hback (by omega) (by omega)
    rw [show e - 112 + 112 - 112 = e - 112 by omega,
      Nat.mul_div_cancel _ (Nat.two_pow_pos 13)] at hagain
    exact hagain.eq hhalf

theorem exponent_of_value (hm : m < 2 ^ 23) (hlow : (2 : ℚ) ^ (-14 : ℤ) ≤ magnitude 8 23 e m)
    (hhigh : magnitude 8 23 e m < 65536) : 112 < e ∧ e < 143 := by
  have hbias : bias 8 = 127 := by decide
  have hupper := hlow.trans_lt (magnitude_lt 8 e hm)
  rw [hbias, zpow_lt_zpow_iff_right₀ one_lt_two] at hupper
  refine ⟨by omega, ?_⟩
  have hlower := (le_magnitude 8 (by omega : e ≠ 0) 23 m).trans_lt hhigh
  rw [hbias, show (65536 : ℚ) = 2 ^ (16 : ℤ) by norm_num, zpow_lt_zpow_iff_right₀ one_lt_two] at hlower
  omega

/-- **A float in the range of the half floats is cut to eleven digits**, and its sign stays. -/
theorem halfToF32_f32ToHalf {v : ℚ} (hv : floatValue 8 23 bits = some v)
    (hlow : (2 : ℚ) ^ (-14 : ℤ) ≤ |v|) (hhigh : |v| < 65536) :
    floatValue 8 23 (halfToF32 (f32ToHalf bits)) = some (truncate 11 v) ∧
      (halfToF32 (f32ToHalf bits)).msb = bits.msb := by
  obtain ⟨s, e, m, hf⟩ := exists_floatFields 8 23 bits
  rw [hf.value] at hv
  by_cases hfinite : e = 2 ^ 8 - 1
  · rw [if_pos hfinite] at hv
    cases hv
  rw [if_neg hfinite] at hv
  have habs : |v| = magnitude 8 23 e m := by
    split at hv
    · rw [← Option.some.inj hv, abs_neg, abs_of_nonneg (magnitude_nonneg 8 23 e m)]
    · rw [← Option.some.inj hv, abs_of_nonneg (magnitude_nonneg 8 23 e m)]
  rw [habs] at hlow hhigh
  obtain ⟨hmin, hmax⟩ := exponent_of_value hf.mantissa_lt hlow hhigh
  have hback := halfToF32_between (f32ToHalf_between hf hmin hmax) (by omega) (by omega)
  rw [Nat.sub_add_cancel hmin.le] at hback
  have hcut := truncate_magnitude 8 (n := 10) (k := 13) (by omega : e ≠ 0) hf.mantissa_lt
  simp only [Nat.reduceAdd] at hcut
  refine ⟨?_, ?_⟩
  · rw [hback.value, if_neg hfinite, ← hcut]
    split at hv
    · rename_i hsign
      rw [if_pos hsign, ← Option.some.inj hv, truncate_neg]
    · rename_i hsign
      rw [if_neg hsign, ← Option.some.inj hv]
  · have hword := hf.toNat_eq
    have hword' := hback.toNat_eq
    rw [BitVec.msb_eq_decide, BitVec.msb_eq_decide]
    exact decide_eq_decide.mpr (by omega)

end Half

/-! ### Vectors -/

/-- A half of an integer in the range is doubled, cast and clamped to the integer. -/
theorem clampI_toZero_half {x lo hi : Int} (hlo : lo ≤ x) (hhi : x ≤ hi) :
    clampI (toZero ((x : ℚ) * (1 / 2) * 2)) lo hi = x := by
  rw [show (x : ℚ) * (1 / 2) * 2 = x by ring, toZero_intCast, clampI, if_neg (by omega),
    if_neg (by omega)]

/-- A field of so many bits, less its bias and with it again. -/
theorem toNat_biased {n k : Nat} (hn : n < 2 ^ k) (hk : k < 32) (mask : BitVec 32)
    (hmask : mask.toNat = 2 ^ k - 1) (low : Int) :
    (BitVec.ofInt 32 ((n : Int) - low + low) &&& mask).toNat = n := by
  have hpow : 2 ^ k < 2 ^ 32 := Nat.pow_lt_pow_right (by decide) hk
  rw [toNat_and_ones _ _ k hmask, Int.sub_add_cancel, BitVec.ofInt_natCast, BitVec.toNat_ofNat,
    Nat.mod_eq_of_lt (hn.trans hpow), Nat.mod_eq_of_lt hn]

/-- **A word is what its vector is packed to.** -/
theorem vec3Quantize_vec3Dequantize (packed : BitVec 32) :
    vec3Quantize (vec3Dequantize packed) = packed := by
  have hx : (packed &&& 0x7FF#32).toNat = packed.toNat % 2 ^ 11 := toNat_and_ones _ _ 11 rfl
  have hy : ((packed >>> 11) &&& 0x7FF#32).toNat = packed.toNat / 2 ^ 11 % 2 ^ 11 := by
    rw [toNat_and_ones _ _ 11 rfl, BitVec.toNat_ushiftRight, Nat.shiftRight_eq_div_pow]
  have hz : ((packed >>> 22) &&& 0x3FF#32).toNat = packed.toNat / 2 ^ 22 := by
    rw [toNat_and_ones _ _ 10 rfl, BitVec.toNat_ushiftRight, Nat.shiftRight_eq_div_pow]
    omega
  apply BitVec.eq_of_toNat_eq
  simp only [vec3Quantize, vec3Dequantize, Vector.getElem_mk, List.getElem_toArray,
    List.getElem_cons_zero, List.getElem_cons_succ, hx, hy, hz]
  rw [clampI_toZero_half (by omega) (by omega), clampI_toZero_half (by omega) (by omega),
    clampI_toZero_half (by omega) (by omega), BitVec.toNat_or, BitVec.toNat_or,
    BitVec.toNat_shiftLeft, BitVec.toNat_shiftLeft,
    toNat_biased (k := 11) (Nat.mod_lt _ (by decide)) (by decide) _ rfl,
    toNat_biased (k := 11) (Nat.mod_lt _ (by decide)) (by decide) _ rfl,
    toNat_biased (k := 10) (by omega) (by decide) _ rfl]
  have hymiddle : (packed.toNat / 2 ^ 11 % 2 ^ 11) <<< 11 % 2 ^ 32 =
      (packed.toNat / 2 ^ 11 % 2 ^ 11) <<< 11 := by
    rw [Nat.shiftLeft_eq]
    omega
  have hztop : (packed.toNat / 2 ^ 22) <<< 22 % 2 ^ 32 = (packed.toNat / 2 ^ 22) <<< 22 := by
    rw [Nat.shiftLeft_eq]
    omega
  rw [hymiddle, hztop, or_shiftLeft (Nat.mod_lt _ (by decide)), or_shiftLeft (by omega)]
  omega

/-! ### Re-encoding -/

/-- **The quantized encodings are stable.**  A half float decoded and encoded again is the same,
whatever pattern it came from; a number from 2 ^ -14 to 65536 comes back cut to eleven
significant digits, with its sign; and every word is the encoding of the vector it stands
for. -/
theorem quantized_encodings_stable :
    (∀ bits : BitVec 32, f32ToHalf (halfToF32 (f32ToHalf bits)) = f32ToHalf bits) ∧
    (∀ (bits : BitVec 32) (v : ℚ), floatValue 8 23 bits = some v → (2 : ℚ) ^ (-14 : ℤ) ≤ |v| →
      |v| < 65536 →
      floatValue 8 23 (halfToF32 (f32ToHalf bits)) = some (truncate 11 v) ∧
        (halfToF32 (f32ToHalf bits)).msb = bits.msb) ∧
    ∀ packed : BitVec 32, vec3Quantize (vec3Dequantize packed) = packed :=
  ⟨f32ToHalf_again, fun _ _ => halfToF32_f32ToHalf, vec3Quantize_vec3Dequantize⟩

/-- The greatest number below -1 has lost its last digit. -/
theorem below_minus_one_cut :
    floatValue 8 23 0xBF800001#32 = some (-8388609 / 8388608) ∧
      truncate 11 (-8388609 / 8388608 : ℚ) = -1 ∧
      floatValue 8 23 (halfToF32 (f32ToHalf 0xBF800001#32)) = some (-1) := by
  have hvalue : floatValue 8 23 0xBF800001#32 = some (-8388609 / 8388608) := by decide +kernel
  have hcut : truncate 11 (-8388609 / 8388608 : ℚ) = -1 := by decide +kernel
  have hresult := (quantized_encodings_stable.2.1 _ _ hvalue (by norm_num [abs]) (by norm_num [abs])).1
  rw [hcut] at hresult
  exact ⟨hvalue, hcut, hresult⟩

end Netudp
