/-
The fast forms do what the plain ones do.

The set bits of a word are the same list whether each bit is tested or the lowest is taken
and cleared until none is left, and the sums by which the plain form counts them are sums in
bytes that do not overflow.  A search and a sum in steps of several lanes go on singly where
the steps end, which the library says is the plain loop.
-/
import Mathlib.Data.Nat.Bitwise
import Netudp.Lib.Fields
import Netudp.Simd.Simd

namespace Netudp.Simd

open Lib

/-! ### The set bits of a word -/

/-- The set bits, lowest first. -/
def setIndices (bits : BitVec 32) : List Nat := (List.range 32).filter bits.getLsbD

/-- Bit `i` tested with a mask. -/
theorem and_one_shiftLeft_ne_zero (bits : BitVec 32) {i : Nat} (hi : i < 32) :
    bits &&& (1#32 <<< i) ≠ 0#32 ↔ bits.getLsbD i = true := by
  have hmask : (1#32 <<< i).toNat = 2 ^ i := by
    rw [BitVec.toNat_shiftLeft, Nat.shiftLeft_eq]
    show 1 * 2 ^ i % 2 ^ 32 = 2 ^ i
    rw [Nat.one_mul, Nat.mod_eq_of_lt (Nat.pow_lt_pow_right (by decide) hi)]
  have hmasked : (bits &&& (1#32 <<< i)).toNat = (bits.getLsbD i).toNat * 2 ^ i := by
    rw [BitVec.toNat_and, hmask, Nat.and_two_pow, BitVec.getLsbD]
  rw [ne_eq, ← BitVec.toNat_inj, hmasked]
  show ¬ (bits.getLsbD i).toNat * 2 ^ i = 0 ↔ _
  cases bits.getLsbD i with
  | false => simp
  | true => simp

theorem genericAckBitsScan_eq (bits : BitVec 32) : genericAckBitsScan bits = setIndices bits := by
  have hround : ∀ (j : Nat) (found : List Nat), 0 ≤ j → j < 0 + 32 →
      (if bits &&& (1#32 <<< j) ≠ 0#32 then found ++ [j] else found) =
        if bits.getLsbD j then found ++ [j] else found := by
    intro j found _ hj
    exact if_congr (and_one_shiftLeft_ne_zero bits (by omega)) rfl rfl
  rw [genericAckBitsScan, strided_one _ _ _ _ (Nat.zero_le _) (Nat.le_add_left _ _), Nat.sub_zero]
  dsimp only
  rw [each_congr hround, each_filter, List.nil_append, ← List.range_eq_range', setIndices]

/-! ### Taking the lowest bit -/

theorem toNat_lowest {x : BitVec 32} (hx : x ≠ 0#32) :
    x.toNat = 2 ^ (x.ctz.toNat + 1) * (x.toNat / 2 ^ (x.ctz.toNat + 1)) + 2 ^ x.ctz.toNat := by
  have hlow : x.toNat % 2 ^ (x.ctz.toNat + 1) = 2 ^ x.ctz.toNat := by
    refine Nat.eq_of_testBit_eq fun j => ?_
    rw [Nat.testBit_mod_two_pow, Nat.testBit_two_pow]
    rcases Nat.lt_trichotomy j x.ctz.toNat with hj | rfl | hj
    · have hzero : x.toNat.testBit j = false := BitVec.getLsbD_false_of_lt_ctz hj
      rw [hzero, Bool.and_false, decide_eq_false (by omega)]
    · have hone : x.toNat.testBit x.ctz.toNat = true := BitVec.getLsbD_true_ctz_of_ne_zero hx
      rw [hone, decide_eq_true (Nat.lt_succ_self _), decide_eq_true rfl, Bool.true_and]
    · rw [decide_eq_false (by omega), decide_eq_false (by omega), Bool.false_and]
  conv_lhs => rw [← Nat.div_add_mod x.toNat (2 ^ (x.ctz.toNat + 1)), hlow]

/-- **`bits &= bits - 1` clears the lowest set bit and no other.** -/
theorem getLsbD_clear_lowest {x : BitVec 32} (hx : x ≠ 0#32) (j : Nat) :
    (x &&& (x - 1#32)).getLsbD j = (x.getLsbD j && decide (j ≠ x.ctz.toNat)) := by
  have hnat := toNat_lowest hx
  have hpos := Nat.two_pow_pos x.ctz.toNat
  have hpred : (x - 1#32).toNat =
      2 ^ (x.ctz.toNat + 1) * (x.toNat / 2 ^ (x.ctz.toNat + 1)) + (2 ^ x.ctz.toNat - 1) := by
    have hone : (1#32).toNat ≤ x.toNat := by
      show 1 ≤ x.toNat
      omega
    rw [BitVec.toNat_sub_of_le hone]
    show x.toNat - 1 = _
    omega
  have hlt : 2 ^ x.ctz.toNat - 1 < 2 ^ (x.ctz.toNat + 1) := by
    rw [Nat.pow_succ]
    omega
  have hlt' : 2 ^ x.ctz.toNat < 2 ^ (x.ctz.toNat + 1) := Nat.pow_lt_pow_succ (by decide)
  rw [BitVec.getLsbD_and]
  show (x.toNat.testBit j && (x - 1#32).toNat.testBit j) = _
  have hbit : x.toNat.testBit j = if j < x.ctz.toNat + 1 then (2 ^ x.ctz.toNat).testBit j
      else (x.toNat / 2 ^ (x.ctz.toNat + 1)).testBit (j - (x.ctz.toNat + 1)) := by
    conv_lhs => rw [hnat]
    exact Nat.testBit_two_pow_mul_add _ hlt' j
  rw [hpred, Nat.testBit_two_pow_mul_add _ hlt]
  show _ = (x.toNat.testBit j && _)
  rw [hbit]
  by_cases hj : j < x.ctz.toNat + 1
  · rw [if_pos hj, if_pos hj, Nat.testBit_two_pow, Nat.testBit_two_pow_sub_one]
    by_cases heq : x.ctz.toNat = j
    · simp [heq]
    · simp [heq]
  · rw [if_neg hj, if_neg hj, Bool.and_self, decide_eq_true (by omega), Bool.and_true]

theorem range_around {k n : Nat} (hk : k < n) :
    List.range n = List.range k ++ k :: List.range' (k + 1) (n - (k + 1)) := by
  obtain ⟨m, rfl⟩ : ∃ m, n = k + (m + 1) := ⟨n - (k + 1), by omega⟩
  rw [List.range_eq_range', List.range_eq_range', ← List.range'_append_1, Nat.zero_add,
    List.range'_succ, show k + (m + 1) - (k + 1) = m by omega]

/-- The set bits of a word are its lowest and those that are left without it. -/
theorem setIndices_eq_cons {x : BitVec 32} (hx : x ≠ 0#32) :
    setIndices x = x.ctz.toNat :: setIndices (x &&& (x - 1#32)) := by
  have hset : x.getLsbD x.ctz.toNat = true := BitVec.getLsbD_true_ctz_of_ne_zero hx
  have hlt : x.ctz.toNat < 32 := BitVec.lt_of_getLsbD hset
  have hbelow : ∀ y : BitVec 32, (∀ j < x.ctz.toNat, y.getLsbD j = false) →
      (List.range x.ctz.toNat).filter y.getLsbD = [] := by
    intro y hy
    refine List.filter_eq_nil_iff.mpr fun j hj => ?_
    rw [hy j (List.mem_range.mp hj)]
    exact Bool.false_ne_true
  have hcleared : (x &&& (x - 1#32)).getLsbD x.ctz.toNat = false := by
    rw [getLsbD_clear_lowest hx, decide_eq_false (not_not.mpr rfl), Bool.and_false]
  have habove : (List.range' (x.ctz.toNat + 1) (32 - (x.ctz.toNat + 1))).filter x.getLsbD =
      (List.range' (x.ctz.toNat + 1) (32 - (x.ctz.toNat + 1))).filter (x &&& (x - 1#32)).getLsbD := by
    refine List.filter_congr fun j hj => ?_
    have hlow := (List.mem_range'_1.mp hj).1
    rw [getLsbD_clear_lowest hx, decide_eq_true (by omega), Bool.and_true]
  rw [setIndices, setIndices, range_around hlt, List.filter_append, List.filter_append,
    hbelow x fun j hj => BitVec.getLsbD_false_of_lt_ctz hj,
    hbelow _ fun j hj => by rw [getLsbD_clear_lowest hx, BitVec.getLsbD_false_of_lt_ctz hj,
      Bool.false_and],
    List.filter_cons_of_pos hset, List.filter_cons_of_neg (by rw [hcleared]; exact Bool.false_ne_true),
    habove, List.nil_append, List.nil_append]

/-- **The fast scan finds the same bits in the same order.** -/
theorem scanLowest_eq (fuel : Nat) :
    ∀ bits : BitVec 32, (setIndices bits).length ≤ fuel → scanLowest fuel bits = setIndices bits := by
  induction fuel with
  | zero =>
    intro bits hfuel
    exact (List.eq_nil_of_length_eq_zero (Nat.le_zero.mp hfuel)).symm
  | succ fuel ih =>
    intro bits hfuel
    rw [scanLowest]
    by_cases hzero : bits = 0#32
    · rw [if_neg (not_not.mpr hzero), hzero]
      simp [setIndices]
    · rw [if_pos hzero, setIndices_eq_cons hzero]
      rw [setIndices_eq_cons hzero, List.length_cons] at hfuel
      rw [ih _ (Nat.le_of_succ_le_succ hfuel)]

theorem length_setIndices_le (bits : BitVec 32) : (setIndices bits).length ≤ 32 :=
  Nat.le_trans (List.length_filter_le _ _) (by rw [List.length_range])

/-! ### Counting in bytes -/

theorem leNat_eq_pack (bytes : Bytes) : leNat bytes = pack 8 (bytes.map UInt8.toNat) := by
  induction bytes with
  | nil => rfl
  | cons byte rest ih =>
    rw [leNat, ih, List.map_cons, pack]
    rfl

/-- The first step of the count in a byte: how many bits each pair has. -/
def pairCounts (b : Nat) : Nat := b - ((b >>> 1) &&& 0x55)

/-- The second: how many each half has. -/
def halfCounts (b : Nat) : Nat := (pairCounts b &&& 0x33) + ((pairCounts b >>> 2) &&& 0x33)

theorem halfCounts_spec : ∀ b < 256, (b >>> 1) &&& 0x55 ≤ b ∧ pairCounts b < 256 ∧
    halfCounts b % 16 ≤ 4 ∧ halfCounts b / 16 ≤ 4 ∧
    halfCounts b % 16 + halfCounts b / 16 = setBits 8 b := by
  decide +kernel

theorem pack_pairCounts {bytes : List Nat} (hlen : bytes.length = 4) (hlt : ∀ b ∈ bytes, b < 256) :
    pack 8 bytes - ((pack 8 bytes >>> 1) &&& 0x55555555) = pack 8 (bytes.map pairCounts) := by
  have hmask : 0x55555555 = pack 8 (List.replicate bytes.length 0x55) := by
    rw [hlen]
    rfl
  rw [hmask, pack_shift_mask (by decide) (by decide) bytes hlt]
  have hsub := pack_sub (w := 8) bytes id (fun b => (b >>> 1) &&& 0x55) fun b hb =>
    (halfCounts_spec b (hlt b hb)).1
  rwa [List.map_id] at hsub

theorem pack_halfCounts {bytes : List Nat} (hlen : bytes.length = 4) (hlt : ∀ b ∈ bytes, b < 256) :
    (pack 8 (bytes.map pairCounts) &&& 0x33333333) +
      ((pack 8 (bytes.map pairCounts) >>> 2) &&& 0x33333333) = pack 8 (bytes.map halfCounts) := by
  have hmask : 0x33333333 = pack 8 (List.replicate (bytes.map pairCounts).length 0x33) := by
    rw [List.length_map, hlen]
    rfl
  have hpairs : ∀ c ∈ bytes.map pairCounts, c < 256 := by
    intro c hc
    obtain ⟨b, hb, rfl⟩ := List.mem_map.mp hc
    exact (halfCounts_spec b (hlt b hb)).2.1
  rw [hmask, pack_mask (by decide) _ hpairs, pack_shift_mask (by decide) (by decide) _ hpairs,
    List.map_map, List.map_map]
  exact pack_add bytes _ _

/-- Four bytes times one in each byte: their sum is the top byte. -/
theorem pack_mul_ones {e₀ e₁ e₂ e₃ : Nat} (hsum : e₀ + e₁ + e₂ + e₃ < 256) :
    pack 8 [e₀, e₁, e₂, e₃] * 0x01010101 % 2 ^ 32 / 2 ^ 24 = e₀ + e₁ + e₂ + e₃ := by
  have hproduct : pack 8 [e₀, e₁, e₂, e₃] * 0x01010101 =
      (e₀ + 256 * (e₀ + e₁) + 65536 * (e₀ + e₁ + e₂) + 2 ^ 24 * (e₀ + e₁ + e₂ + e₃)) +
        2 ^ 32 * (e₁ + e₂ + e₃ + 256 * (e₂ + e₃) + 65536 * e₃) := by
    simp only [pack]
    ring
  have hlow : e₀ + 256 * (e₀ + e₁) + 65536 * (e₀ + e₁ + e₂) < 2 ^ 24 := by omega
  rw [hproduct, Nat.add_mul_mod_self_left, Nat.mod_eq_of_lt (by omega),
    Nat.add_mul_div_left _ _ (by decide), Nat.div_eq_of_lt hlow, Nat.zero_add]

/-- The last steps: the halves of each byte are added, and the product has the sum of the
bytes on top. -/
theorem add_halfCounts {b₀ b₁ b₂ b₃ : Nat} (h₀ : b₀ < 256) (h₁ : b₁ < 256) (h₂ : b₂ < 256)
    (h₃ : b₃ < 256) {c : Nat} (hc : c = pack 8 ([b₀, b₁, b₂, b₃].map halfCounts)) :
    ((c + (c >>> 4)) &&& 0x0F0F0F0F) * 0x01010101 % 2 ^ 32 / 2 ^ 24 =
      ([b₀, b₁, b₂, b₃].map (setBits 8)).sum := by
  obtain ⟨-, -, hlow₀, hhigh₀, hsum₀⟩ := halfCounts_spec b₀ h₀
  obtain ⟨-, -, hlow₁, hhigh₁, hsum₁⟩ := halfCounts_spec b₁ h₁
  obtain ⟨-, -, hlow₂, hhigh₂, hsum₂⟩ := halfCounts_spec b₂ h₂
  obtain ⟨-, -, hlow₃, hhigh₃, hsum₃⟩ := halfCounts_spec b₃ h₃
  simp only [List.map_cons, List.map_nil, List.sum_cons, List.sum_nil] at hc ⊢
  rw [← hsum₀, ← hsum₁, ← hsum₂, ← hsum₃]
  generalize halfCounts b₀ = c₀ at *
  generalize halfCounts b₁ = c₁ at *
  generalize halfCounts b₂ = c₂ at *
  generalize halfCounts b₃ = c₃ at *
  -- A shifted byte has the low half of the next one on top; the sums still fit.
  have hbytes : c + (c >>> 4) = pack 8 [c₀ + c₀ / 16 + 16 * (c₁ % 16), c₁ + c₁ / 16 + 16 * (c₂ % 16),
      c₂ + c₂ / 16 + 16 * (c₃ % 16), c₃ + c₃ / 16] := by
    rw [hc, Nat.shiftRight_eq_div_pow]
    simp only [pack]
    omega
  have hmasked : (c + (c >>> 4)) &&& 0x0F0F0F0F =
      pack 8 [c₀ % 16 + c₀ / 16, c₁ % 16 + c₁ / 16, c₂ % 16 + c₂ / 16, c₃ % 16 + c₃ / 16] := by
    have hmask := pack_mask (w := 8) (m := 0x0F) (by decide) [c₀ + c₀ / 16 + 16 * (c₁ % 16),
      c₁ + c₁ / 16 + 16 * (c₂ % 16), c₂ + c₂ / 16 + 16 * (c₃ % 16), c₃ + c₃ / 16] (by
        intro d hd
        simp only [List.mem_cons, List.not_mem_nil, or_false] at hd
        omega)
    rw [← hbytes] at hmask
    rw [show 0x0F0F0F0F = pack 8 (List.replicate 4 0x0F) from rfl]
    refine hmask.trans ?_
    have hlow : ∀ d, d &&& 0x0F = d % 16 := fun d => Nat.and_two_pow_sub_one_eq_mod d 4
    simp only [List.map_cons, List.map_nil, hlow]
    congr 5 <;> omega
  rw [hmasked, pack_mul_ones (by omega)]
  omega

theorem toNat_eq_pack (v : BitVec 32) : ∃ b₀ b₁ b₂ b₃, b₀ < 256 ∧ b₁ < 256 ∧ b₂ < 256 ∧ b₃ < 256 ∧
    v.toNat = pack 8 [b₀, b₁, b₂, b₃] := by
  refine ⟨v.toNat % 256, v.toNat / 256 % 256, v.toNat / 65536 % 256, v.toNat / 16777216,
    by omega, by omega, by omega, by omega, ?_⟩
  simp only [pack]
  omega

theorem bitCount_eq_setBits {w : Nat} (v : BitVec w) : bitCount v = setBits w v.toNat := rfl

/-- **The plain count is the number of set bits.** -/
theorem genericPopcount32_eq (v : BitVec 32) : genericPopcount32 v = bitCount v := by
  obtain ⟨b₀, b₁, b₂, b₃, h₀, h₁, h₂, h₃, hv⟩ := toNat_eq_pack v
  have hbytes : ∀ b ∈ [b₀, b₁, b₂, b₃], b < 256 := by
    intro b hb
    simp only [List.mem_cons, List.not_mem_nil, or_false] at hb
    omega
  have hle : ((v >>> 1) &&& 0x55555555#32).toNat ≤ v.toNat := by
    rw [BitVec.toNat_and, BitVec.toNat_ushiftRight]
    exact Nat.le_trans Nat.and_le_left (Nat.shiftRight_le _ _)
  have hpairs : (v - ((v >>> 1) &&& 0x55555555#32)).toNat =
      pack 8 ([b₀, b₁, b₂, b₃].map pairCounts) := by
    rw [BitVec.toNat_sub_of_le hle, BitVec.toNat_and, BitVec.toNat_ushiftRight, hv]
    exact pack_pairCounts rfl hbytes
  have hhalves := pack_halfCounts (rfl : [b₀, b₁, b₂, b₃].length = 4) hbytes
  have hsmall : pack 8 ([b₀, b₁, b₂, b₃].map halfCounts) < 2 ^ 31 := by
    have hhalf : ∀ b < 256, halfCounts b ≤ 68 := fun b hb => by
      have := halfCounts_spec b hb
      omega
    have := hhalf b₀ h₀
    have := hhalf b₁ h₁
    have := hhalf b₂ h₂
    have := hhalf b₃ h₃
    simp only [List.map_cons, List.map_nil, pack]
    omega
  rw [genericPopcount32]
  generalize v - ((v >>> 1) &&& 0x55555555#32) = p at hpairs
  have hc : ((p &&& 0x33333333#32) + ((p >>> 2) &&& 0x33333333#32)).toNat =
      pack 8 ([b₀, b₁, b₂, b₃].map halfCounts) := by
    rw [BitVec.toNat_add, BitVec.toNat_and, BitVec.toNat_and, BitVec.toNat_ushiftRight, hpairs,
      ← hhalves]
    refine Nat.mod_eq_of_lt (Nat.lt_trans ?_ (by decide : 2 ^ 31 < 2 ^ 32))
    rw [← hhalves] at hsmall
    exact hsmall
  generalize (p &&& 0x33333333#32) + ((p >>> 2) &&& 0x33333333#32) = c at hc
  have hsum : (c + (c >>> 4)).toNat = c.toNat + (c.toNat >>> 4) := by
    rw [BitVec.toNat_add, BitVec.toNat_ushiftRight, Nat.shiftRight_eq_div_pow]
    omega
  rw [BitVec.toNat_ushiftRight, BitVec.toNat_mul, BitVec.toNat_and, hsum, Nat.shiftRight_eq_div_pow]
  refine (add_halfCounts h₀ h₁ h₂ h₃ hc).trans ?_
  rw [bitCount_eq_setBits, hv]
  exact (setBits_pack (w := 8) [b₀, b₁, b₂, b₃] hbytes).symm

/-- NEON counts in eight bytes, of which the upper four are zero. -/
theorem neonPopcount32_eq (v : BitVec 32) : neonPopcount32 v = bitCount v := by
  have hlt : v.toNat < 2 ^ 32 := v.isLt
  have hword : pack 8 ((leBytes 8 v.toNat).map UInt8.toNat) = v.toNat := by
    rw [← leNat_eq_pack, leNat_leBytes_of_lt (Nat.lt_trans hlt (by decide))]
  have hbytes : ∀ b ∈ (leBytes 8 v.toNat).map UInt8.toNat, b < 2 ^ 8 := by
    intro b hb
    obtain ⟨byte, -, rfl⟩ := List.mem_map.mp hb
    exact byte.toNat_lt
  have hcounts := setBits_pack _ hbytes
  rw [hword, List.length_map, length_leBytes, List.map_map, setBits_of_lt hlt 32] at hcounts
  have hle := setBits_le 32 v.toNat
  show ((leBytes 8 v.toNat).map (setBits 8 ∘ UInt8.toNat)).sum % 256 = setBits 32 v.toNat
  rw [← hcounts]
  omega

/-! ### Searches -/

theorem movemaskEpi8_allOnes (rest : List (BitVec 64)) :
    movemaskEpi8 (BitVec.allOnes 64 :: rest) = 255 + 2 ^ 8 * movemaskEpi8 rest := rfl

theorem movemaskEpi8_zero (rest : List (BitVec 64)) :
    movemaskEpi8 (0#64 :: rest) = 0 + 2 ^ 8 * movemaskEpi8 rest := rfl

/-- The mask has a bit if some lane was equal. -/
theorem movemaskEpi8_compareLanes (vals : List (BitVec 64)) (target : BitVec 64) :
    decide (movemaskEpi8 (compareLanes vals target) ≠ 0) = vals.any (· == target) := by
  induction vals with
  | nil => rfl
  | cons val rest ih =>
    rw [List.any_cons, ← ih, compareLanes, List.map_cons, ← compareLanes]
    by_cases hval : val = target
    · rw [if_pos hval, movemaskEpi8_allOnes, beq_iff_eq.mpr hval, Bool.true_or]
      exact decide_eq_true (by omega)
    · rw [if_neg hval, movemaskEpi8_zero, beq_eq_false_iff_ne.mpr hval, Bool.false_or]
      exact decide_eq_decide.mpr (by omega)

theorem lanes_compareLanes (vals : List (BitVec 64)) (target : BitVec 64) (hlen : vals.length = 2) :
    (decide ((compareLanes vals target).getD 0 0 ≠ 0) ||
      decide ((compareLanes vals target).getD 1 0 ≠ 0)) = vals.any (· == target) := by
  obtain ⟨a, b, rfl⟩ := List.length_eq_two.mp hlen
  by_cases ha : a = target <;> by_cases hb : b = target <;> simp [compareLanes, ha, hb]

/-- **A search in steps is the plain one**, whatever tells that a lane has been found. -/
theorem replayCheckBy_eq {w : Nat} {found : List (BitVec 64) → Bool} (hw : 0 < w)
    (hfound : ∀ vals target, vals.length = w →
      found (compareLanes vals target) = vals.any (· == target))
    (window : Nat → BitVec 64) (seq : BitVec 64) (size : Int) :
    replayCheckBy w found window seq size = genericReplayCheck window seq size := by
  have hlanes : ∀ i, i + w ≤ size.toNat →
      found (compareLanes (loadLanes window i w) seq) = hits (fun i => window i == seq) i w := by
    intro i _
    rw [hfound _ _ (by rw [loadLanes, List.length_map, List.length_range']), loadLanes,
      List.any_map, hits]
    rfl
  have htail := search_tail hw hlanes size.toNat size.toNat (Nat.zero_le _)
    (Nat.le_add_left _ _) (Nat.le_refl _)
  rw [← search_one (fun i => window i == seq) size.toNat size.toNat (Nat.zero_le _)
    (Nat.le_add_left _ _)] at htail
  rw [replayCheckBy, genericReplayCheck, ← htail]
  cases search w size.toNat (fun i => found (compareLanes (loadLanes window i w) seq))
      size.toNat 0 with
  | none => rfl
  | some i => rfl

/-! ### Sums -/

theorem each_addAt (src : Nat → BitVec 64) (n : Nat) : ∀ (i : Nat) (dst : Nat → BitVec 64) (j : Nat),
    each (addAt src) i n dst j = if i ≤ j ∧ j < i + n then dst j + src j else dst j := by
  induction n with
  | zero =>
    intro i dst j
    rw [each_zero, if_neg (by omega)]
  | succ n ih =>
    intro i dst j
    rw [each_succ, ih, addAt]
    by_cases hj : j = i
    · rw [if_neg (by omega), if_pos (by omega), hj, Function.update_self]
    · rw [Function.update_of_ne hj]
      congr 1
      exact propext (by omega)

theorem storeLanes_eq_each (dst src : Nat → BitVec 64) (i w : Nat) :
    storeLanes dst i (List.zipWith (· + ·) (loadLanes dst i w) (loadLanes src i w)) =
      each (addAt src) i w dst := by
  funext j
  have hlen : (List.zipWith (· + ·) (loadLanes dst i w) (loadLanes src i w)).length = w := by
    simp [loadLanes]
  rw [each_addAt, storeLanes, hlen]
  split
  · rename_i hj
    have hindex : i + (j - i) = j := by omega
    simp [loadLanes, List.getD_eq_getElem?_getD, hindex, show j - i < w by omega]
  · rfl

theorem accumulateBy_eq {w : Nat} (hw : 0 < w) (dst src : Nat → BitVec 64) (count : Int) :
    accumulateBy w dst src count = genericAccumulateU64 dst src count := by
  have htail := strided_tail hw
    (fun i dst (_ : i + w ≤ count.toNat) => storeLanes_eq_each dst src i w) count.toNat count.toNat
    dst (Nat.zero_le _) (Nat.le_add_left _ _) (Nat.le_refl _)
  rw [← strided_one (addAt src) count.toNat count.toNat dst (Nat.zero_le _)
    (Nat.le_add_left _ _)] at htail
  exact congrArg Prod.snd htail

/-! ### The tables -/

/-- **The fast forms agree with the plain ones.**  On every mask the scans yield one list, the
set bits in ascending order, as many as the count says, and the count, by whatever means, is
the number of set bits; on every array and size the searches give one answer and the sums
leave one array. -/
theorem simd_agrees_with_generic :
    (∀ bits : BitVec 32,
      sse42AckBitsScan bits = genericAckBitsScan bits ∧
      avx2AckBitsScan bits = genericAckBitsScan bits ∧
      neonAckBitsScan bits = genericAckBitsScan bits ∧
      (genericAckBitsScan bits).Pairwise (· < ·) ∧
      (∀ i, i ∈ genericAckBitsScan bits ↔ i < 32 ∧ bits.getLsbD i = true) ∧
      (genericAckBitsScan bits).length = genericPopcount32 bits) ∧
    (∀ v : BitVec 32,
      genericPopcount32 v = bitCount v ∧
      sse42Popcount32 v = genericPopcount32 v ∧
      avx2Popcount32 v = genericPopcount32 v ∧
      neonPopcount32 v = genericPopcount32 v) ∧
    (∀ (window : Nat → BitVec 64) (seq : BitVec 64) (size : Int),
      sse42ReplayCheck window seq size = genericReplayCheck window seq size ∧
      avx2ReplayCheck window seq size = genericReplayCheck window seq size ∧
      neonReplayCheck window seq size = genericReplayCheck window seq size) ∧
    ∀ (dst src : Nat → BitVec 64) (count : Int),
      sse42AccumulateU64 dst src count = genericAccumulateU64 dst src count ∧
      avx2AccumulateU64 dst src count = genericAccumulateU64 dst src count ∧
      neonAccumulateU64 dst src count = genericAccumulateU64 dst src count := by
  refine ⟨fun bits => ?_, fun v => ?_, fun window seq size => ?_, fun dst src count => ?_⟩
  · have hscan : scanLowest 32 bits = genericAckBitsScan bits := by
      rw [genericAckBitsScan_eq, scanLowest_eq 32 bits (length_setIndices_le bits)]
    refine ⟨hscan, hscan, hscan, ?_, fun i => ?_, ?_⟩
    · rw [genericAckBitsScan_eq]
      exact List.pairwise_lt_range.filter _
    · rw [genericAckBitsScan_eq, setIndices, List.mem_filter, List.mem_range]
    · rw [genericAckBitsScan_eq, genericPopcount32_eq, bitCount, List.countP_eq_length_filter,
        setIndices]
  · refine ⟨genericPopcount32_eq v, (genericPopcount32_eq v).symm, (genericPopcount32_eq v).symm, ?_⟩
    rw [neonPopcount32_eq, genericPopcount32_eq]
  · have hmask : ∀ (n : Nat) (vals : List (BitVec 64)) (target : BitVec 64), vals.length = n →
        decide (movemaskEpi8 (compareLanes vals target) ≠ 0) = vals.any (· == target) :=
      fun _ vals target _ => movemaskEpi8_compareLanes vals target
    exact ⟨replayCheckBy_eq (by decide) (hmask 2) window seq size,
      replayCheckBy_eq (by decide) (hmask 4) window seq size,
      replayCheckBy_eq (by decide) lanes_compareLanes window seq size⟩
  · exact ⟨accumulateBy_eq (by decide) dst src count, accumulateBy_eq (by decide) dst src count,
      accumulateBy_eq (by decide) dst src count⟩

end Netudp.Simd
