/-
One checksum, computed in four ways.

Against the polynomial a byte is eight shifts of the remainder.  The table has the eight
shifts of every byte, and by linearity that is enough; the instructions do the shifts for
one, four or eight bytes, and a word read from memory has its bytes in the order they lie
in.  So each loop folds the same step over the same bytes, whatever the lengths it takes
them in.
-/
import Netudp.Simd.Simd

namespace Netudp.Simd

open Lib

/-! ### The polynomial -/

/-- The checksum, bit by bit: the remainder starts with all bits set, each byte is xored to
its low bits and shifted out, and in the end all bits are flipped. -/
def crc32c (data : Bytes) : BitVec 32 := data.foldl crcByte 0xFFFFFFFF ^^^ 0xFFFFFFFF

/-! ### The table -/

/-- **The table has the eight shifts of every byte.** -/
theorem crc32cTable_eq :
    crc32cTable = (List.range 256).map fun i => crcBits crc32cPoly 8 (BitVec.ofNat 32 i) := by
  decide +kernel

theorem crc32cTable_getD {i : Nat} (hi : i < 256) :
    crc32cTable.getD i 0 = crcBits crc32cPoly 8 (BitVec.ofNat 32 i) := by
  rw [crc32cTable_eq]
  simp [hi]

theorem getLsbD_low_byte (x : BitVec 32) {i : Nat} (hi : i < 32) :
    (x &&& 0xFF).getLsbD i = (decide (i < 8) && x.getLsbD i) := by
  have hmask : (0xFF : BitVec 32).getLsbD i = decide (i < 8) := by
    show (BitVec.ofNat 32 (2 ^ 8 - 1)).getLsbD i = decide (i < 8)
    rw [BitVec.getLsbD_ofNat, Nat.testBit_two_pow_sub_one, decide_eq_true hi, Bool.true_and]
  rw [BitVec.getLsbD_and, hmask, Bool.and_comm]

/-- **A step with the table is a byte bit by bit.** -/
theorem crcTableStep_eq (crc : BitVec 32) (byte : UInt8) :
    crcTableStep crc byte = crcByte crc byte := by
  have hsmall : (BitVec.ofNat 32 byte.toNat) >>> 8 = 0#32 := by
    have hlt := byte.toNat_lt
    refine BitVec.eq_of_toNat_eq ?_
    rw [BitVec.toNat_ushiftRight, BitVec.toNat_ofNat, Nat.shiftRight_eq_div_pow,
      BitVec.toNat_zero]
    omega
  have hrest : (crc ^^^ BitVec.ofNat 32 byte.toNat) >>> 8 = crc >>> 8 := by
    rw [BitVec.ushiftRight_xor_distrib, hsmall, BitVec.xor_zero]
  rw [crcByte, crcTableStep, ← hrest]
  generalize crc ^^^ BitVec.ofNat 32 byte.toNat = x
  have hindex : (x &&& 0xFF).toNat < 256 := by
    rw [BitVec.toNat_and]
    exact Nat.lt_of_le_of_lt Nat.and_le_right (by decide)
  rw [crcBits_split crc32cPoly 8 x (x &&& 0xFF) fun i hi => getLsbD_low_byte x hi,
    crc32cTable_getD hindex, BitVec.ofNat_toNat, BitVec.setWidth_eq]

/-! ### The loops -/

theorem foldl_eq_each (data : Bytes) {i n : Nat} (h : i + n ≤ data.length) (crc : BitVec 32) :
    ((data.drop i).take n).foldl crcByte crc =
      each (fun j crc => crcByte crc (data.getD j 0)) i n crc := by
  have hbytes : (data.drop i).take n = (List.range' i n).map fun j => data.getD j 0 := by
    refine List.ext_getElem (by simp; omega) fun k hk hk' => ?_
    have hlt : i + k < data.length := by
      simp at hk
      omega
    simp [hlt]
  rw [hbytes, List.foldl_map, each]

theorem crc32c_eq_each (data : Bytes) :
    crc32c data =
      each (fun j crc => crcByte crc (data.getD j 0)) 0 data.length 0xFFFFFFFF ^^^ 0xFFFFFFFF := by
  rw [← foldl_eq_each data (by omega), List.drop_zero, List.take_length, crc32c]

theorem crc32Instruction_leNat (crc : BitVec 32) (bytes : Bytes) :
    crc32Instruction bytes.length crc (leNat bytes) = bytes.foldl crcByte crc := by
  rw [crc32Instruction, leBytes_leNat]

/-- **A chunk is as many single bytes.** -/
theorem crc_chunk (data : Bytes) (n i : Nat) (crc : BitVec 32) (h : i + n ≤ data.length) :
    crc32Instruction n crc (leNat ((data.drop i).take n)) =
      each (fun j crc => crcByte crc (data.getD j 0)) i n crc := by
  have hlen : ((data.drop i).take n).length = n := by
    rw [List.length_take, List.length_drop]
    omega
  have hinstr := crc32Instruction_leNat crc ((data.drop i).take n)
  rw [hlen] at hinstr
  rw [hinstr, foldl_eq_each data h]

/-- A single byte is one too. -/
theorem crc_byte (data : Bytes) (i : Nat) (crc : BitVec 32) :
    crc32Instruction 1 crc (data.getD i 0).toNat = crcByte crc (data.getD i 0) := by
  have hinstr := crc32Instruction_leNat crc [data.getD i 0]
  simpa [leNat] using hinstr

/-- What the loops have made of the bytes so far. -/
def Progress (data : Bytes) (at_ : Nat × BitVec 32) : Prop :=
  at_.1 ≤ data.length ∧
    at_.2 = each (fun j crc => crcByte crc (data.getD j 0)) 0 at_.1 0xFFFFFFFF

theorem progress_start (data : Bytes) : Progress data (0, 0xFFFFFFFF) := ⟨Nat.zero_le _, rfl⟩

theorem Progress.chunks {data : Bytes} {at_ : Nat × BitVec 32} (h : Progress data at_) {n : Nat}
    (hn : 0 < n) : Progress data (crcChunks n data at_) := by
  obtain ⟨k, hend, -, heq⟩ := strided_spec hn (fun i crc => crc_chunk data n i crc) data.length
    at_.1 at_.2 h.1 (Nat.le_add_left _ _)
  rw [crcChunks, heq]
  refine ⟨hend, ?_⟩
  show each _ at_.1 k at_.2 = each _ 0 (at_.1 + k) 0xFFFFFFFF
  rw [each_add, ← h.2, Nat.zero_add]

theorem Progress.tail {data : Bytes} {at_ : Nat × BitVec 32} (h : Progress data at_) :
    (crcTail data at_).2 ^^^ 0xFFFFFFFF = crc32c data := by
  have hwhole := each_add (fun j crc => crcByte crc (data.getD j 0)) 0 at_.1
    (data.length - at_.1) 0xFFFFFFFF
  rw [Nat.zero_add, Nat.add_sub_of_le h.1] at hwhole
  simp only [crcTail, crc_byte]
  rw [strided_one _ _ _ _ h.1 (Nat.le_add_left _ _), h.2, crc32c_eq_each, hwhole]

/-- **All implementations agree with the polynomial**, for every byte string and every way
they are compiled. -/
theorem crc32c_implementations_agree (data : Bytes) (x64 featureCrc32 : Bool) :
    genericCrc32c data = crc32c data ∧
      sse42Crc32c x64 data = crc32c data ∧
      avx2Crc32c x64 data = crc32c data ∧
      neonCrc32c featureCrc32 data = crc32c data := by
  have hgeneric : genericCrc32c data = crc32c data := by
    simp only [genericCrc32c, crcTableStep_eq]
    rw [strided_one _ _ _ _ (Nat.zero_le _) (Nat.le_add_left _ _), Nat.sub_zero, crc32c_eq_each]
  have hstart := progress_start data
  have height := hstart.chunks (n := 8) (by decide)
  have hsse : sse42Crc32c x64 data = crc32c data := by
    cases x64 with
    | false => exact (hstart.chunks (n := 4) (by decide)).tail
    | true => exact (height.chunks (n := 4) (by decide)).tail
  refine ⟨hgeneric, hsse, hsse, ?_⟩
  cases featureCrc32 with
  | false => exact hgeneric
  | true => exact (height.chunks (n := 4) (by decide)).tail

/-- The check value of the polynomial: the digits 1 to 9. -/
example : crc32c [0x31, 0x32, 0x33, 0x34, 0x35, 0x36, 0x37, 0x38, 0x39] = 0xE3069283 := by
  decide +kernel

end Netudp.Simd
