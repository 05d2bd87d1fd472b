/-
The dispatch tables for vector instructions (`src/simd`).

Each of the operations exists in a plain form and in forms for SSE4.2, AVX2 and NEON.  A
fast form takes several items at a time and does the rest singly, or uses an instruction
that counts bits.

Words are bit vectors, and arrays are functions of the index; what an operation writes to
and what it reads from do not overlap.  A vector register is the list of its lanes, and an
instruction does to each lane what its description says.  A negative size gives a loop of
no rounds, as zero does.  The other operations, which move memory or compare addresses, are
left out.
-/
import Netudp.Crypto.Aead
import Netudp.Lib.Crc
import Netudp.Lib.Strided

namespace Netudp.Simd

open Lib

/-! ### Checksums -/

/-- The reflected Castagnoli polynomial. -/
def crc32cPoly : BitVec 32 := 0x82F63B78

/-- `g_crc32c_table`. -/
def crc32cTable : List (BitVec 32) := [
    0x00000000, 0xF26B8303, 0xE13B70F7, 0x1350F3F4, 0xC79A971F, 0x35F1141C, 0x26A1E7E8, 0xD4CA64EB,
    0x8AD958CF, 0x78B2DBCC, 0x6BE22838, 0x9989AB3B, 0x4D43CFD0, 0xBF284CD3, 0xAC78BF27, 0x5E133C24,
    0x105EC76F, 0xE235446C, 0xF165B798, 0x030E349B, 0xD7C45070, 0x25AFD373, 0x36FF2087, 0xC494A384,
    0x9A879FA0, 0x68EC1CA3, 0x7BBCEF57, 0x89D76C54, 0x5D1D08BF, 0xAF768BBC, 0xBC267848, 0x4E4DFB4B,
    0x20BD8EDE, 0xD2D60DDD, 0xC186FE29, 0x33ED7D2A, 0xE72719C1, 0x154C9AC2, 0x061C6936, 0xF477EA35,
    0xAA64D611, 0x580F5512, 0x4B5FA6E6, 0xB93425E5, 0x6DFE410E, 0x9F95C20D, 0x8CC531F9, 0x7EAEB2FA,
    0x30E349B1, 0xC288CAB2, 0xD1D83946, 0x23B3BA45, 0xF779DEAE, 0x05125DAD, 0x1642AE59, 0xE4292D5A,
    0xBA3A117E, 0x4851927D, 0x5B016189, 0xA96AE28A, 0x7DA08661, 0x8FCB0562, 0x9C9BF696, 0x6EF07595,
    0x417B1DBC, 0xB3109EBF, 0xA0406D4B, 0x522BEE48, 0x86E18AA3, 0x748A09A0, 0x67DAFA54, 0x95B17957,
    0xCBA24573, 0x39C9C670, 0x2A993584, 0xD8F2B687, 0x0C38D26C, 0xFE53516F, 0xED03A29B, 0x1F682198,
    0x5125DAD3, 0xA34E59D0, 0xB01EAA24, 0x42752927, 0x96BF4DCC, 0x64D4CECF, 0x77843D3B, 0x85EFBE38,
    0xDBFC821C, 0x2997011F, 0x3AC7F2EB, 0xC8AC71E8, 0x1C661503, 0xEE0D9600, 0xFD5D65F4, 0x0F36E6F7,
    0x61C69362, 0x93AD1061, 0x80FDE395, 0x72966096, 0xA65C047D, 0x5437877E, 0x4767748A, 0xB50CF789,
    0xEB1FCBAD, 0x197448AE, 0x0A24BB5A, 0xF84F3859, 0x2C855CB2, 0xDEEEDFB1, 0xCDBE2C45, 0x3FD5AF46,
    0x7198540D, 0x83F3D70E, 0x90A324FA, 0x62C8A7F9, 0xB602C312, 0x44694011, 0x5739B3E5, 0xA55230E6,
    0xFB410CC2, 0x092A8FC1, 0x1A7A7C35, 0xE811FF36, 0x3CDB9BDD, 0xCEB018DE, 0xDDE0EB2A, 0x2F8B6829,
    0x82F63B78, 0x709DB87B, 0x63CD4B8F, 0x91A6C88C, 0x456CAC67, 0xB7072F64, 0xA457DC90, 0x563C5F93,
    0x082F63B7, 0xFA44E0B4, 0xE9141340, 0x1B7F9043, 0xCFB5F4A8, 0x3DDE77AB, 0x2E8E845F, 0xDCE5075C,
    0x92A8FC17, 0x60C37F14, 0x73938CE0, 0x81F80FE3, 0x55326B08, 0xA759E80B, 0xB4091BFF, 0x466298FC,
    0x1871A4D8, 0xEA1A27DB, 0xF94AD42F, 0x0B21572C, 0xDFEB33C7, 0x2D80B0C4, 0x3ED04330, 0xCCBBC033,
    0xA24BB5A6, 0x502036A5, 0x4370C551, 0xB11B4652, 0x65D122B9, 0x97BAA1BA, 0x84EA524E, 0x7681D14D,
    0x2892ED69, 0xDAF96E6A, 0xC9A99D9E, 0x3BC21E9D, 0xEF087A76, 0x1D63F975, 0x0E330A81, 0xFC588982,
    0xB21572C9, 0x407EF1CA, 0x532E023E, 0xA145813D, 0x758FE5D6, 0x87E466D5, 0x94B49521, 0x66DF1622,
    0x38CC2A06, 0xCAA7A905, 0xD9F75AF1, 0x2B9CD9F2, 0xFF56BD19, 0x0D3D3E1A, 0x1E6DCDEE, 0xEC064EED,
    0xC38D26C4, 0x31E6A5C7, 0x22B65633, 0xD0DDD530, 0x0417B1DB, 0xF67C32D8, 0xE52CC12C, 0x1747422F,
    0x49547E0B, 0xBB3FFD08, 0xA86F0EFC, 0x5A048DFF, 0x8ECEE914, 0x7CA56A17, 0x6FF599E3, 0x9D9E1AE0,
    0xD3D3E1AB, 0x21B862A8, 0x32E8915C, 0xC083125F, 0x144976B4, 0xE622F5B7, 0xF5720643, 0x07198540,
    0x590AB964, 0xAB613A67, 0xB831C993, 0x4A5A4A90, 0x9E902E7B, 0x6CFBAD78, 0x7FAB5E8C, 0x8DC0DD8F,
    0xE330A81A, 0x115B2B19, 0x020BD8ED, 0xF0605BEE, 0x24AA3F05, 0xD6C1BC06, 0xC5914FF2, 0x37FACCF1,
    0x69E9F0D5, 0x9B8273D6, 0x88D28022, 0x7AB90321, 0xAE7367CA, 0x5C18E4C9, 0x4F48173D, 0xBD23943E,
    0xF36E6F75, 0x0105EC76, 0x12551F82, 0xE03E9C81, 0x34F4F86A, 0xC69F7B69, 0xD5CF889D, 0x27A40B9E,
    0x79B737BA, 0x8BDCB4B9, 0x988C474D, 0x6AE7C44E, 0xBE2DA0A5, 0x4C4623A6, 0x5F16D052, 0xAD7D5351]

/-- The body of the loop of `generic_crc32c`, for the byte `data[i]`. -/
def crcTableStep (crc : BitVec 32) (byte : UInt8) : BitVec 32 :=
  crc32cTable.getD ((crc ^^^ BitVec.ofNat 32 byte.toNat) &&& 0xFF).toNat 0 ^^^ (crc >>> 8)

/-- `generic_crc32c`. -/
def genericCrc32c (data : Bytes) : BitVec 32 :=
  let len := data.length
  let (_, crc) := strided 1 len (fun i crc => crcTableStep crc (data.getD i 0)) len 0 0xFFFFFFFF
  crc ^^^ 0xFFFFFFFF

/-- One byte into the remainder, bit by bit. -/
def crcByte (crc : BitVec 32) (byte : UInt8) : BitVec 32 :=
  crcBits crc32cPoly 8 (crc ^^^ BitVec.ofNat 32 byte.toNat)

/-- The instructions `crc32` and `crc32c` with an operand of `n` bytes, the low one first. -/
def crc32Instruction (n : Nat) (crc : BitVec 32) (val : Nat) : BitVec 32 :=
  (leBytes n val).foldl crcByte crc

/-- The loop that takes `n` bytes at a time, each time with a `memcpy` to `val`. -/
def crcChunks (n : Nat) (data : Bytes) (start : Nat × BitVec 32) : Nat × BitVec 32 :=
  strided n data.length (fun i crc => crc32Instruction n crc (leNat ((data.drop i).take n)))
    data.length start.1 start.2

/-- The loop over the remaining bytes. -/
def crcTail (data : Bytes) (start : Nat × BitVec 32) : Nat × BitVec 32 :=
  strided 1 data.length (fun i crc => crc32Instruction 1 crc (data.getD i 0).toNat) data.length
    start.1 start.2

/-- `sse42_crc32c`; the loop over 8 bytes is compiled for 64-bit targets only. -/
def sse42Crc32c (x64 : Bool) (data : Bytes) : BitVec 32 :=
  let start := (0, 0xFFFFFFFF)
  let start := if x64 then crcChunks 8 data start else start
  let start := crcChunks 4 data start
  let (_, crc) := crcTail data start
  crc ^^^ 0xFFFFFFFF

/-- `avx2_crc32c`. -/
def avx2Crc32c (x64 : Bool) (data : Bytes) : BitVec 32 := sse42Crc32c x64 data

/-- `neon_crc32c`; without the instructions it is the generic one. -/
def neonCrc32c (featureCrc32 : Bool) (data : Bytes) : BitVec 32 :=
  if featureCrc32 then
    let start := (0, 0xFFFFFFFF)
    let start := crcChunks 8 data start
    let start := crcChunks 4 data start
    let (_, crc) := crcTail data start
    crc ^^^ 0xFFFFFFFF
  else genericCrc32c data

/-! ### Set bits -/

/-- `generic_ack_bits_scan`: the indices it writes. -/
def genericAckBitsScan (bits : BitVec 32) : List Nat :=
  (strided 1 32 (fun i indices =>
    if bits &&& (1#32 <<< i) ≠ 0#32 then indices ++ [i] else indices) 32 0 []).2

/-- The loop `while (bits != 0)` that takes the lowest set bit and clears it; 32 rounds are
enough. -/
def scanLowest : Nat → BitVec 32 → List Nat
  | 0, _ => []
  | fuel + 1, bits =>
    if bits ≠ 0#32 then bits.ctz.toNat :: scanLowest fuel (bits &&& (bits - 1#32)) else []

/-- `sse42_ack_bits_scan`, with `_tzcnt_u32`. -/
def sse42AckBitsScan (bits : BitVec 32) : List Nat := scanLowest 32 bits

/-- `avx2_ack_bits_scan`. -/
def avx2AckBitsScan (bits : BitVec 32) : List Nat := sse42AckBitsScan bits

/-- `neon_ack_bits_scan`, with `__builtin_ctz`. -/
def neonAckBitsScan (bits : BitVec 32) : List Nat := scanLowest 32 bits

/-- `generic_popcount32`. -/
def genericPopcount32 (v : BitVec 32) : Nat :=
  let v := v - ((v >>> 1) &&& 0x55555555)
  let v := (v &&& 0x33333333) + ((v >>> 2) &&& 0x33333333)
  ((((v + (v >>> 4)) &&& 0x0F0F0F0F) * 0x01010101) >>> 24).toNat

/-- The number of set bits, which `_mm_popcnt_u32` counts in a word and `vcnt_u8` in a byte. -/
def bitCount {w : Nat} (v : BitVec w) : Nat := (List.range w).countP v.getLsbD

/-- `sse42_popcount32`. -/
def sse42Popcount32 (v : BitVec 32) : Nat := bitCount v

/-- `avx2_popcount32`. -/
def avx2Popcount32 (v : BitVec 32) : Nat := sse42Popcount32 v

/-- `neon_popcount32`: the bits of each of eight bytes are counted, and `vaddv_u8` adds the
counts, in a byte. -/
def neonPopcount32 (v : BitVec 32) : Nat :=
  let input := leBytes 8 v.toNat
  let counts := input.map fun byte => bitCount byte.toBitVec
  counts.sum % 256

/-! ### Searches -/

/-- `generic_replay_check`. -/
def genericReplayCheck (window : Nat → BitVec 64) (seq : BitVec 64) (size : Int) : Nat :=
  let size := size.toNat
  match search 1 size (fun i => window i == seq) size 0 with
  | none => 1
  | some _ => 0

/-- The `n` lanes from index `i` on. -/
def loadLanes (a : Nat → BitVec 64) (i n : Nat) : List (BitVec 64) := (List.range' i n).map a

/-- A comparison of lanes: all ones where they are equal, and zero elsewhere. -/
def compareLanes (vals : List (BitVec 64)) (target : BitVec 64) : List (BitVec 64) :=
  vals.map fun val => if val = target then BitVec.allOnes 64 else 0#64

/-- `_mm_movemask_epi8`: the top bits of the bytes, those of the first lane lowest. -/
def movemaskEpi8 : List (BitVec 64) → Nat
  | [] => 0
  | lane :: rest =>
    ((List.range 8).map fun k => if lane.getLsbD (8 * k + 7) then 2 ^ k else 0).sum +
      2 ^ 8 * movemaskEpi8 rest

/-- A search in steps of `w` lanes, with `found` telling whether the comparison has a lane
that is not zero, and then singly. -/
def replayCheckBy (w : Nat) (found : List (BitVec 64) → Bool) (window : Nat → BitVec 64)
    (seq : BitVec 64) (size : Int) : Nat :=
  let size := size.toNat
  match search w size (fun i => found (compareLanes (loadLanes window i w) seq)) size 0 with
  | none => 1
  | some i =>
    match search 1 size (fun i => window i == seq) size i with
    | none => 1
    | some _ => 0

/-- `sse42_replay_check`. -/
def sse42ReplayCheck : (Nat → BitVec 64) → BitVec 64 → Int → Nat :=
  replayCheckBy 2 fun cmp => movemaskEpi8 cmp ≠ 0

/-- `avx2_replay_check`. -/
def avx2ReplayCheck : (Nat → BitVec 64) → BitVec 64 → Int → Nat :=
  replayCheckBy 4 fun cmp => movemaskEpi8 cmp ≠ 0

/-- `neon_replay_check`, which looks at the two lanes. -/
def neonReplayCheck : (Nat → BitVec 64) → BitVec 64 → Int → Nat :=
  replayCheckBy 2 fun cmp => cmp.getD 0 0 ≠ 0 || cmp.getD 1 0 ≠ 0

/-! ### Sums -/

/-- `dst[i] += src[i]`. -/
def addAt (src : Nat → BitVec 64) (i : Nat) (dst : Nat → BitVec 64) : Nat → BitVec 64 :=
  Function.update dst i (dst i + src i)

/-- `generic_accumulate_u64`: what it leaves in `dst`. -/
def genericAccumulateU64 (dst src : Nat → BitVec 64) (count : Int) : Nat → BitVec 64 :=
  let count := count.toNat
  (strided 1 count (addAt src) count 0 dst).2

/-- The lanes stored from index `i` on. -/
def storeLanes (a : Nat → BitVec 64) (i : Nat) (lanes : List (BitVec 64)) : Nat → BitVec 64 :=
  fun j => if i ≤ j ∧ j < i + lanes.length then lanes.getD (j - i) 0 else a j

/-- `w` lanes added at a time, and then the rest singly. -/
def accumulateBy (w : Nat) (dst src : Nat → BitVec 64) (count : Int) : Nat → BitVec 64 :=
  let count := count.toNat
  let (i, dst) := strided w count (fun i dst =>
    storeLanes dst i (List.zipWith (· + ·) (loadLanes dst i w) (loadLanes src i w))) count 0 dst
  (strided 1 count (addAt src) count i dst).2

/-- `sse42_accumulate_u64`. -/
def sse42AccumulateU64 (dst src : Nat → BitVec 64) (count : Int) : Nat → BitVec 64 :=
  accumulateBy 2 dst src count

/-- `avx2_accumulate_u64`. -/
def avx2AccumulateU64 (dst src : Nat → BitVec 64) (count : Int) : Nat → BitVec 64 :=
  accumulateBy 4 dst src count

/-- `neon_accumulate_u64`. -/
def neonAccumulateU64 (dst src : Nat → BitVec 64) (count : Int) : Nat → BitVec 64 :=
  accumulateBy 2 dst src count

end Netudp.Simd
