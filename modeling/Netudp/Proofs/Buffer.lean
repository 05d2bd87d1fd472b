/-
The buffer API: where it writes, and what it reads back.

Every write copies so many bytes to the position and moves it behind them, if the check
before it lets it.  As long as the sum in that check is exact, the position stays in the
buffer and nothing outside the bytes it moves over is touched.  As long as there is room
for each write, the buffer holds what was written, one encoding after another, and the
reads take them off again.
-/
import Netudp.Core.Buffer
import Netudp.Lib.Fields
import Netudp.Lib.Run

namespace Netudp

open Lib

namespace NetudpBuffer

variable {b b' b'' : NetudpBuffer} {n : Nat}

/-! ### The position -/

/-- The position is in the buffer or at its end. -/
structure InBuffer (b : NetudpBuffer) : Prop where
  capacity : b.capacity = 1200
  low : 0 ≤ b.position
  high : b.position ≤ b.capacity

theorem inBuffer_acquire (memory : Int → UInt8) : InBuffer (acquire memory) :=
  ⟨rfl, le_refl _, by simp [acquire]⟩

theorem fits_iff (h : InBuffer b) {needed : Int} (hlow : -2 ^ 31 ≤ needed)
    (hexact : b.position + needed < 2 ^ 31) :
    b.fits needed = true ↔ b.position + needed ≤ b.capacity := by
  have hposition := h.low
  rw [fits, wrap32_eq (by omega) hexact, decide_eq_true_iff]

theorem fits_of_room (h : InBuffer b) (hroom : b.position + n ≤ b.capacity) :
    b.fits n = true := by
  have hcapacity := h.capacity
  exact (fits_iff h (by omega) (by omega)).mpr hroom

/-- From one buffer to the other the position has moved on, and only what it moved over has
changed. -/
structure Confined (b b' : NetudpBuffer) : Prop where
  inBuffer : InBuffer b'
  position_le : b.position ≤ b'.position
  frame : ∀ i, ¬ (b.position ≤ i ∧ i < b'.position) → b'.data i = b.data i

theorem Confined.refl (h : InBuffer b) : Confined b b := ⟨h, le_refl _, fun _ _ => rfl⟩

theorem Confined.trans (h : Confined b b') (h' : Confined b' b'') : Confined b b'' := by
  have hfirst := h.position_le
  have hsecond := h'.position_le
  refine ⟨h'.inBuffer, hfirst.trans hsecond, fun i hi => ?_⟩
  rw [h'.frame i (by omega), h.frame i (by omega)]

theorem position_advance (h : InBuffer b) (hroom : b.position + n ≤ b.capacity) :
    (b.advance n).position = b.position + n := by
  have hlow := h.low
  have hcapacity := h.capacity
  exact wrap32_eq (by omega) (by omega)

theorem confined_advance (h : InBuffer b) (hroom : b.position + n ≤ b.capacity) :
    Confined b (b.advance n) := by
  have hposition := position_advance h hroom
  have hlow := h.low
  refine ⟨⟨h.capacity, by omega, ?_⟩, by omega, fun _ _ => rfl⟩
  rw [hposition]
  exact hroom

end NetudpBuffer

open NetudpBuffer

/-! ### What is written -/

/-- The bytes the varint loop writes. -/
def varintBytes : Nat → Nat → List UInt8
  | 0, uv => [UInt8.ofNat uv]
  | rounds + 1, uv =>
    if 0x7F < uv then UInt8.ofNat (uv % 128 + 128) :: varintBytes rounds (uv / 128)
    else [UInt8.ofNat uv]

theorem length_varintBytes (rounds : Nat) :
    ∀ uv, (varintBytes rounds uv).length ≤ rounds + 1 := by
  induction rounds with
  | zero => exact fun _ => Nat.le_refl 1
  | succ rounds ih =>
    intro uv
    rw [varintBytes]
    split
    · exact Nat.succ_le_succ (ih _)
    · exact Nat.le_add_left 1 _

/-- The bytes of a write. -/
def BufferWrite.encoding : BufferWrite → List UInt8
  | .u8 v => [v]
  | .u16 v => leBytes 2 v.toNat
  | .u32 v => leBytes 4 v.toNat
  | .u64 v => leBytes 8 v.toNat
  | .f32 bits => leBytes 4 bits.toNat
  | .f64 bits => leBytes 8 bits.toNat
  | .varint v => varintBytes 4 v.toUInt32.toNat
  | .bytes none _ => []
  | .bytes (some src) len => (List.range len.toInt.toNat).map src
  | .string none _ => []
  | .string (some src) maxLen =>
    let len := strLen src maxLen.toInt.toNat 0
    leBytes 2 len ++ (List.range len).map src

namespace NetudpBuffer

variable {b b' b'' : NetudpBuffer} {xs ys : List UInt8}

/-- From one buffer to the other these bytes were written at the position, which is behind
them now. -/
structure Wrote (b b' : NetudpBuffer) (xs : List UInt8) : Prop where
  capacity : b'.capacity = b.capacity
  position : b'.position = b.position + xs.length
  room : b.position + xs.length ≤ b.capacity
  contents : load b'.data b.position xs.length = xs
  frame : ∀ i, ¬ (b.position ≤ i ∧ i < b'.position) → b'.data i = b.data i

theorem Wrote.nothing (h : InBuffer b) : Wrote b b [] where
  capacity := rfl
  position := by simp
  room := by simpa using h.high
  contents := rfl
  frame _ _ := rfl

theorem Wrote.trans (h : Wrote b b' xs) (h' : Wrote b' b'' ys) : Wrote b b'' (xs ++ ys) := by
  have hposition := h.position
  have hbehind := h'.position
  have hroom := h'.room
  rw [h.capacity] at hroom
  refine ⟨h'.capacity.trans h.capacity, ?_, ?_, ?_, fun i hi => ?_⟩
  · rw [List.length_append]
    omega
  · rw [List.length_append]
    omega
  · rw [List.length_append, load_append, ← hposition, h'.contents]
    congr 1
    exact (load_congr fun j hj => h'.frame _ (by omega)).trans h.contents
  · rw [h'.frame i (by omega), h.frame i (by omega)]

theorem Wrote.confined (hwrote : Wrote b b' xs) (h : InBuffer b) : Confined b b' := by
  have hlow := h.low
  have hposition := hwrote.position
  have hroom := hwrote.room
  refine ⟨⟨hwrote.capacity.trans h.capacity, by omega, ?_⟩, by omega, hwrote.frame⟩
  rw [hwrote.capacity, hposition]
  exact hroom

theorem wrote_write {n : Nat} (hlow : -2 ^ 31 ≤ b.position) (hcapacity : b.capacity < 2 ^ 31)
    (hroom : b.position + n ≤ b.capacity) (src : Nat → UInt8) :
    Wrote b (b.write n src) ((List.range n).map src) := by
  have hlength : ((List.range n).map src).length = n := by simp
  have hposition : (b.write n src).position = b.position + n := by
    show wrap32 (b.position + n) = _
    exact wrap32_eq (by omega) (by omega)
  refine ⟨rfl, by rw [hlength, hposition], by rwa [hlength], ?_, fun i hi => ?_⟩
  · rw [hlength]
    exact load_store_self _ _ _ _
  · rw [hposition] at hi
    exact store_of_not_mem _ _ hi

theorem wrote_bytes (h : InBuffer b) {bytes : List UInt8}
    (hroom : b.position + bytes.length ≤ b.capacity) :
    Wrote b (b.write bytes.length (bytes.getD · 0)) bytes := by
  have hlow := h.low
  have hcapacity := h.capacity
  have hwrote := wrote_write (by omega) (by omega) hroom (bytes.getD · 0)
  rwa [map_getD_range] at hwrote

/-- The loop writes its bytes, at most one more than it has rounds. -/
theorem wrote_writeVarintLoop (rounds : Nat) : ∀ (uv : Nat) {b : NetudpBuffer},
    -2 ^ 31 ≤ b.position → b.capacity < 2 ^ 31 → b.position + (rounds + 1) ≤ b.capacity →
      Wrote b (writeVarintLoop rounds uv b) (varintBytes rounds uv) := by
  induction rounds with
  | zero =>
    intro uv b hlow hcapacity hroom
    exact wrote_write hlow hcapacity (by omega) _
  | succ rounds ih =>
    intro uv b hlow hcapacity hroom
    have hput : ∀ v, Wrote b (b.put v) [v] := fun v =>
      wrote_write hlow hcapacity (by omega) fun _ => v
    rw [NetudpBuffer.writeVarintLoop, varintBytes]
    split
    · have hfirst := hput (UInt8.ofNat (uv % 128 + 128))
      have hposition := hfirst.position
      rw [List.length_singleton] at hposition
      refine hfirst.trans (ih (uv / 128) (by omega) (by rwa [hfirst.capacity]) ?_)
      rw [hfirst.capacity]
      omega
    · exact hput _

theorem wrote_writeVarint (hlow : -2 ^ 31 ≤ b.position) (hcapacity : b.capacity < 2 ^ 31)
    (hfive : b.position + 5 ≤ b.capacity) (v : Int32) :
    Wrote b (b.writeVarint v) (BufferWrite.varint v).encoding := by
  have hfits : b.fits 5 = true := by
    rw [fits, wrap32_eq (by omega) (by omega)]
    exact decide_eq_true hfive
  rw [NetudpBuffer.writeVarint, if_pos hfits]
  exact wrote_writeVarintLoop 4 _ hlow hcapacity hfive

end NetudpBuffer

open NetudpBuffer

/-- The sum in the check of the write does not wrap. -/
def GuardExact (b : NetudpBuffer) : BufferWrite → Prop
  | .bytes (some _) len => b.position + len.toInt < 2 ^ 31
  | .string (some src) maxLen => b.position + (2 + strLen src maxLen.toInt.toNat 0) < 2 ^ 31
  | _ => True

instance (b : NetudpBuffer) (w : BufferWrite) : Decidable (GuardExact b w) := by
  unfold GuardExact
  split <;> infer_instance

/-- The bytes a write asks for. -/
def BufferWrite.needed : BufferWrite → Int
  | .varint _ => 5
  | .bytes (some _) len => len.toInt
  | w => w.encoding.length

section Writes

variable {b b' : NetudpBuffer} {xs : List UInt8} {needed : Int}

/-- The bytes were written if there was room for what is needed, and else nothing was. -/
def Writes (b b' : NetudpBuffer) (needed : Int) (xs : List UInt8) : Prop :=
  if b.position + needed ≤ b.capacity then Wrote b b' xs else b' = b

theorem writes_guarded (h : InBuffer b) (hlow : -2 ^ 31 ≤ needed)
    (hexact : b.position + needed < 2 ^ 31)
    (hwrote : b.position + needed ≤ b.capacity → Wrote b b' xs) :
    Writes b (if b.fits needed then b' else b) needed xs := by
  have hfits := fits_iff h hlow hexact
  rw [Writes]
  split
  · rename_i hroom
    rw [if_pos (hfits.mpr hroom)]
    exact hwrote hroom
  · rename_i hroom
    rw [if_neg (mt hfits.mp hroom)]

theorem writes_nothing (h : InBuffer b) (needed : Int) : Writes b b needed [] := by
  rw [Writes]
  split
  · exact .nothing h
  · rfl

theorem writes_writeRaw (h : InBuffer b) {bytes : List UInt8} (hsmall : bytes.length ≤ 8) :
    Writes b (b.writeRaw bytes) bytes.length bytes := by
  have hhigh := h.high
  have hcapacity := h.capacity
  exact writes_guarded h (by omega) (by omega) fun hroom => wrote_bytes h hroom

theorem writes_writeVarint (h : InBuffer b) (v : Int32) :
    Writes b (b.writeVarint v) 5 (BufferWrite.varint v).encoding := by
  have hlow := h.low
  have hhigh := h.high
  have hcapacity := h.capacity
  exact writes_guarded h (by omega) (by omega) fun hroom =>
    wrote_writeVarintLoop 4 _ (by omega) (by omega) hroom

theorem writes_writeBytes (h : InBuffer b) (src : Nat → UInt8) (len : Int32)
    (hexact : b.position + len.toInt < 2 ^ 31) :
    Writes b (b.writeBytes (some src) len) len.toInt ((List.range len.toInt.toNat).map src) := by
  have hlow := h.low
  have hcapacity := h.capacity
  refine writes_guarded h len.le_toInt hexact fun hroom => ?_
  show Wrote b (if 0 < len.toInt then _ else _) _
  split
  · exact wrote_write (by omega) (by omega) (by omega) src
  · rw [Int.toNat_of_nonpos (by omega)]
    exact .nothing h

theorem writes_writeString (h : InBuffer b) (src : Nat → UInt8) (maxLen : Int32)
    (hexact : b.position + (BufferWrite.string (some src) maxLen).needed < 2 ^ 31) :
    Writes b (b.writeString (some src) maxLen) (BufferWrite.string (some src) maxLen).needed
      (BufferWrite.string (some src) maxLen).encoding := by
  have hlow := h.low
  have hcapacity := h.capacity
  simp only [NetudpBuffer.writeString, BufferWrite.needed, BufferWrite.encoding] at hexact ⊢
  generalize strLen src maxLen.toInt.toNat 0 = len at hexact ⊢
  have hlength : ((leBytes 2 len ++ (List.range len).map src).length : Int) = 2 + len := by simp
  rw [hlength] at hexact ⊢
  rw [wrap32_eq (by omega) (by omega)]
  refine writes_guarded h (by omega) hexact fun hroom => ?_
  have hprefixed : b.position + (leBytes 2 len).length ≤ b.capacity := by
    rw [length_leBytes]
    omega
  have htwo := wrote_bytes h hprefixed
  have hposition := htwo.position
  rw [length_leBytes] at htwo hposition
  refine htwo.trans (wrote_write (by omega) (by rw [htwo.capacity]; omega) ?_ src)
  rw [htwo.capacity]
  omega

/-- **What a write whose check is exact does to the buffer.** -/
theorem writes_afterWrite (h : InBuffer b) (w : BufferWrite)
    (hexact : b.position + w.needed < 2 ^ 31) :
    Writes b (b.afterWrite w) w.needed w.encoding := by
  cases w with
  | u8 v => exact writes_writeRaw h (by simp)
  | u16 v => exact writes_writeRaw h (by simp)
  | u32 v => exact writes_writeRaw h (by simp)
  | u64 v => exact writes_writeRaw h (by simp)
  | f32 bits => exact writes_writeRaw h (by simp)
  | f64 bits => exact writes_writeRaw h (by simp)
  | varint v => exact writes_writeVarint h v
  | bytes data len =>
    cases data with
    | none =>
      simp only [NetudpBuffer.afterWrite, NetudpBuffer.writeBytes, ite_self]
      exact writes_nothing h _
    | some src => exact writes_writeBytes h src len hexact
  | string str maxLen =>
    cases str with
    | none => exact writes_nothing h _
    | some src => exact writes_writeString h src maxLen hexact

theorem GuardExact.needed_lt {w : BufferWrite} (hexact : GuardExact b w) (h : InBuffer b) :
    b.position + w.needed < 2 ^ 31 := by
  have hhigh := h.high
  have hcapacity := h.capacity
  cases w with
  | bytes data len =>
    cases data with
    | none => simp [BufferWrite.needed, BufferWrite.encoding]; omega
    | some src => exact hexact
  | string str maxLen =>
    cases str with
    | none => simp [BufferWrite.needed, BufferWrite.encoding]; omega
    | some src => simpa [GuardExact, BufferWrite.needed, BufferWrite.encoding] using hexact
  | varint v => simp only [BufferWrite.needed]; omega
  | _ => simp [BufferWrite.needed, BufferWrite.encoding]; omega

theorem confined_afterWrite (h : InBuffer b) (w : BufferWrite) (hexact : GuardExact b w) :
    Confined b (b.afterWrite w) := by
  have hwrites := writes_afterWrite h w (GuardExact.needed_lt hexact h)
  rw [Writes] at hwrites
  split at hwrites
  · exact hwrites.confined h
  · rw [hwrites]
    exact .refl h

end Writes

theorem confined_readVarintLoop (rounds : Nat) :
    ∀ (shift result : Nat) (b : NetudpBuffer), InBuffer b →
      Confined b (readVarintLoop rounds shift result b).2 ∧
        (readVarintLoop rounds shift result b).2.data = b.data := by
  induction rounds with
  | zero => exact fun _ _ b h => ⟨.refl h, rfl⟩
  | succ rounds ih =>
    intro shift result b h
    rw [readVarintLoop]
    split
    · rename_i hmore
      have hbyte := confined_advance (n := 1) h (by omega)
      dsimp only
      split
      · exact ⟨hbyte, rfl⟩
      · split
        · exact ⟨hbyte, rfl⟩
        · obtain ⟨hrest, hdata⟩ := ih (shift + 7) _ _ hbyte.inBuffer
          exact ⟨hbyte.trans hrest, hdata⟩
    · exact ⟨.refl h, rfl⟩

theorem confined_readRaw {b : NetudpBuffer} (h : InBuffer b) {n : Nat} (hsmall : n ≤ 8) :
    Confined b (b.readRaw n).2 ∧ (b.readRaw n).2.data = b.data := by
  have hhigh := h.high
  have hcapacity := h.capacity
  rw [readRaw]
  split
  · rename_i hfits
    exact ⟨confined_advance h ((fits_iff h (by omega) (by omega)).mp hfits), rfl⟩
  · exact ⟨.refl h, rfl⟩

/-- A read moves the position, at most to the end. -/
theorem confined_afterRead {b : NetudpBuffer} (h : InBuffer b) (r : BufferRead) :
    Confined b (b.afterRead r) ∧ (b.afterRead r).data = b.data := by
  cases r with
  | u8 => exact confined_readRaw h (by decide)
  | u16 => exact confined_readRaw h (by decide)
  | u32 => exact confined_readRaw h (by decide)
  | u64 => exact confined_readRaw h (by decide)
  | f32 => exact confined_readRaw h (by decide)
  | f64 => exact confined_readRaw h (by decide)
  | varint => exact confined_readVarintLoop 5 0 0 b h

/-- The call is no write whose check wraps. -/
def CallExact (b : NetudpBuffer) : BufferCall → Prop
  | .write w => GuardExact b w
  | .read _ => True

instance (b : NetudpBuffer) (call : BufferCall) : Decidable (CallExact b call) := by
  cases call with
  | write w => exact inferInstanceAs (Decidable (GuardExact b w))
  | read r => exact isTrue trivial

theorem confined_bufferStep {b : NetudpBuffer} (h : InBuffer b) {call : BufferCall}
    (hexact : CallExact b call) : Confined b (bufferStep b call) := by
  cases call with
  | write w => exact confined_afterWrite h w hexact
  | read r => exact (confined_afterRead h r).1

/-- **The position stays in the buffer**, whatever is written and read, as long as no check's
sum leaves the range of an `int`; and a call changes nothing but the bytes its position
moves over. -/
theorem buffer_position_in_range (memory : Int → UInt8) (es : List BufferCall)
    (hexact : Along bufferStep CallExact (acquire memory) es) :
    let b := run bufferStep (acquire memory) es
    (0 ≤ b.position ∧ b.position ≤ b.capacity) ∧
      ∀ pre call post, es = pre ++ call :: post →
        let before := run bufferStep (acquire memory) pre
        let after := bufferStep before call
        ∀ i, after.data i ≠ before.data i → before.position ≤ i ∧ i < after.position := by
  intro b
  have hrun : ∀ {es}, Along bufferStep CallExact (acquire memory) es →
      InBuffer (run bufferStep (acquire memory) es) :=
    fun halong => run_invariant InBuffer (fun _ _ h hcall => (confined_bufferStep h hcall).inBuffer)
      (inBuffer_acquire memory) halong
  refine ⟨⟨(hrun hexact).low, (hrun hexact).high⟩, ?_⟩
  intro pre call post hes before after i hchanged
  rw [hes, along_append] at hexact
  by_contra hout
  exact hchanged ((confined_bufferStep (hrun hexact.1) hexact.2.1).frame i hout)

/-- Bytes of the greatest length there is, into a buffer with nothing in it, do not fit. -/
theorem longest_bytes_refused :
    let es : List BufferCall := [.write (.bytes (some fun _ => 7) 2147483647), .write (.u8 1),
      .write (.string (some fun _ => 0) 2147483647), .read .u16]
    (run bufferStep (acquire fun _ => 0) es).position = 5 ∧
      (run bufferStep (acquire fun _ => 0) es).position ≤
        (run bufferStep (acquire fun _ => 0) es).capacity := by
  intro es
  have hrange := buffer_position_in_range (fun _ => 0) es
    (by decide +kernel)
  exact ⟨by decide +kernel, hrange.1.2⟩

/-- The same bytes behind one byte: the sum of the check is -2 ^ 31, they are written far
beyond the buffer, and the position is negative. -/
theorem longest_bytes_written :
    let before := run bufferStep (acquire fun _ => 0) [.write (.u8 1)]
    let after := bufferStep before (.write (.bytes (some fun _ => 7) 2147483647))
    before.position = 1 ∧ after.position = -2 ^ 31 ∧ before.data 1200 = 0 ∧
      after.data 1200 = 7 := by
  decide +kernel

/-! ### Writing and reading back -/

/-- What is written and read. -/
inductive BufferValue where
  | u8 (v : UInt8)
  | u16 (v : UInt16)
  | u32 (v : UInt32)
  | u64 (v : UInt64)
  | f32 (bits : UInt32)
  | f64 (bits : UInt64)
  | varint (v : Int32)
  | bytes (data : List UInt8)
  | string (len : UInt16) (data : List UInt8)
deriving DecidableEq

/-- The value a write is given.  A string ends at its first null character or at the
greatest length, and a null pointer is nothing. -/
def BufferWrite.value : BufferWrite → BufferValue
  | .u8 v => .u8 v
  | .u16 v => .u16 v
  | .u32 v => .u32 v
  | .u64 v => .u64 v
  | .f32 bits => .f32 bits
  | .f64 bits => .f64 bits
  | .varint v => .varint v
  | .bytes none _ => .bytes []
  | .bytes (some src) len => .bytes ((List.range len.toInt.toNat).map src)
  | .string none _ => .bytes []
  | .string (some src) maxLen =>
    let len := strLen src maxLen.toInt.toNat 0
    .string (UInt16.ofNat len) ((List.range len).map src)

namespace NetudpBuffer

/-- So many `netudp_buffer_read_u8`. -/
def readMany : Nat → NetudpBuffer → List UInt8 × NetudpBuffer
  | 0, b => ([], b)
  | n + 1, b =>
    let (v, b) := b.readU8
    let (vs, b) := readMany n b
    (v :: vs, b)

/-- The reads that belong to a write: of the same type, of as many bytes, or of a length and
as many bytes as it says. -/
def readBack (b : NetudpBuffer) : BufferWrite → BufferValue × NetudpBuffer
  | .u8 _ => (.u8 b.readU8.1, b.readU8.2)
  | .u16 _ => (.u16 b.readU16.1, b.readU16.2)
  | .u32 _ => (.u32 b.readU32.1, b.readU32.2)
  | .u64 _ => (.u64 b.readU64.1, b.readU64.2)
  | .f32 _ => (.f32 b.readF32.1, b.readF32.2)
  | .f64 _ => (.f64 b.readF64.1, b.readF64.2)
  | .varint _ => (.varint b.readVarint.1, b.readVarint.2)
  | .bytes none _ => (.bytes [], b)
  | .bytes (some _) len =>
    let (data, b) := readMany len.toInt.toNat b
    (.bytes data, b)
  | .string none _ => (.bytes [], b)
  | .string (some _) _ =>
    let (len, b) := b.readU16
    let (data, b) := readMany len.toNat b
    (.string len data, b)

/-- The reads that belong to the writes, in their order. -/
def readBackAll : List BufferWrite → NetudpBuffer → List BufferValue × NetudpBuffer
  | [], b => ([], b)
  | w :: ws, b =>
    let (v, b) := b.readBack w
    let (vs, b) := readBackAll ws b
    (v :: vs, b)

variable {b : NetudpBuffer} {xs ys : List UInt8}

/-- The buffer holds these bytes up to its position. -/
structure Holds (b : NetudpBuffer) (xs : List UInt8) : Prop where
  inBuffer : InBuffer b
  position : b.position = xs.length
  contents : load b.data 0 xs.length = xs

theorem Holds.wrote {b' : NetudpBuffer} (h : Holds b xs) (hwrote : Wrote b b' ys)
    (hroom : xs.length + ys.length ≤ 1200) : Holds b' (xs ++ ys) := by
  have hcapacity := h.inBuffer.capacity
  have hposition := h.position
  have hbehind := hwrote.position
  refine ⟨⟨hwrote.capacity.trans hcapacity, by omega, ?_⟩, ?_, ?_⟩
  · rw [hwrote.capacity]
    omega
  · rw [List.length_append]
    omega
  · rw [List.length_append, load_append, Int.zero_add, ← hposition, hwrote.contents]
    congr 1
    exact (load_congr fun j hj => hwrote.frame _ (by omega)).trans h.contents

/-- **A write there is room for is appended.** -/
theorem Holds.afterWrite (h : Holds b xs) (w : BufferWrite)
    (hroom : xs.length + w.encoding.length ≤ 1200)
    (hvarint : ∀ v, w = .varint v → b.position + 5 ≤ b.capacity) :
    Holds (b.afterWrite w) (xs ++ w.encoding) := by
  have hcapacity := h.inBuffer.capacity
  have hposition := h.position
  have hneeded : b.position + w.needed ≤ b.capacity := by
    cases w with
    | varint v => exact hvarint v rfl
    | bytes data len =>
      cases data with
      | none =>
        simp only [BufferWrite.needed, BufferWrite.encoding, List.length_nil] at hroom ⊢
        omega
      | some src =>
        simp only [BufferWrite.needed, BufferWrite.encoding, List.length_map,
          List.length_range] at hroom ⊢
        omega
    | _ =>
      simp only [BufferWrite.needed]
      omega
  have hwrites := writes_afterWrite h.inBuffer w (by omega)
  rw [Writes, if_pos hneeded] at hwrites
  exact h.wrote hwrites hroom

theorem Holds.run (ws : List BufferWrite) : ∀ {b : NetudpBuffer} {xs : List UInt8}, Holds b xs →
    xs.length + (ws.map (·.encoding.length)).sum ≤ 1200 →
    Along NetudpBuffer.afterWrite (fun b w => ∀ v, w = .varint v → b.position + 5 ≤ b.capacity)
      b ws →
    Holds (Lib.run NetudpBuffer.afterWrite b ws) (xs ++ ws.flatMap (·.encoding)) := by
  induction ws with
  | nil =>
    intro b xs h _ _
    rw [run_nil, List.flatMap_nil, List.append_nil]
    exact h
  | cons w ws ih =>
    intro b xs h hroom hvarints
    rw [List.map_cons, List.sum_cons] at hroom
    have hfirst := h.afterWrite w (by omega) hvarints.1
    rw [run_cons, List.flatMap_cons, ← List.append_assoc]
    exact ih hfirst (by rw [List.length_append]; omega) hvarints.2

/-- These bytes come next. -/
structure Ahead (b : NetudpBuffer) (xs : List UInt8) : Prop where
  inBuffer : InBuffer b
  room : b.position + xs.length ≤ b.capacity
  contents : load b.data b.position xs.length = xs

theorem Holds.rewind (h : Holds b xs) : Ahead b.rewind xs := by
  have hhigh := h.inBuffer.high
  have hposition := h.position
  have hcapacity := h.inBuffer.capacity
  refine ⟨⟨hcapacity, le_refl _, ?_⟩, ?_, h.contents⟩
  · show 0 ≤ b.capacity
    omega
  · show 0 + (xs.length : Int) ≤ b.capacity
    omega

theorem Ahead.append (h : Ahead b (xs ++ ys)) :
    load b.data b.position xs.length = xs ∧ Ahead (b.advance xs.length) ys := by
  have hroom := h.room
  have hcontents := h.contents
  rw [List.length_append, Int.natCast_add] at hroom
  rw [List.length_append, load_append] at hcontents
  obtain ⟨hfirst, hrest⟩ := List.append_inj hcontents (length_load _ _ _)
  have hfits : b.position + xs.length ≤ b.capacity := by omega
  have hposition := position_advance h.inBuffer hfits
  refine ⟨hfirst, (confined_advance h.inBuffer hfits).inBuffer, ?_, ?_⟩
  · rw [hposition]
    show _ ≤ b.capacity
    omega
  · rw [hposition]
    exact hrest

theorem Ahead.readRaw (h : Ahead b (xs ++ ys)) :
    b.readRaw xs.length = (leNat xs, b.advance xs.length) := by
  have hroom := h.room
  rw [List.length_append, Int.natCast_add] at hroom
  rw [NetudpBuffer.readRaw, if_pos (fits_of_room h.inBuffer (by omega)), h.append.1]

theorem Ahead.readNumber {w n : Nat} (h : Ahead b (leBytes w n ++ ys)) (hn : n < 256 ^ w) :
    b.readRaw w = (n, b.advance w) ∧ Ahead (b.advance w) ys := by
  have hread := h.readRaw
  have hrest := h.append.2
  rw [length_leBytes] at hread hrest
  rw [leNat_leBytes_of_lt hn] at hread
  exact ⟨hread, hrest⟩

theorem Ahead.readU8 {v : UInt8} (h : Ahead b (v :: ys)) :
    b.readU8 = (v, b.advance 1) ∧ Ahead (b.advance 1) ys := by
  have hahead : Ahead b ([v] ++ ys) := h
  have hread := hahead.readRaw
  refine ⟨?_, hahead.append.2⟩
  rw [List.length_singleton] at hread
  simp [NetudpBuffer.readU8, hread, leNat]

theorem Ahead.readMany : ∀ (xs : List UInt8) {b : NetudpBuffer}, Ahead b (xs ++ ys) →
    (NetudpBuffer.readMany xs.length b).1 = xs ∧
      Ahead (NetudpBuffer.readMany xs.length b).2 ys := by
  intro xs
  induction xs with
  | nil =>
    intro b h
    exact ⟨rfl, h⟩
  | cons v xs ih =>
    intro b h
    obtain ⟨hread, hnext⟩ := Ahead.readU8 h
    obtain ⟨hdata, hrest⟩ := ih hnext
    rw [List.length_cons, NetudpBuffer.readMany, hread]
    dsimp only
    rw [hdata]
    exact ⟨rfl, hrest⟩

/-- These bytes come next, in a buffer of whatever size. -/
structure Next (b : NetudpBuffer) (xs : List UInt8) : Prop where
  low : -2 ^ 31 ≤ b.position
  high : b.capacity < 2 ^ 31
  room : b.position + xs.length ≤ b.capacity
  contents : load b.data b.position xs.length = xs

theorem Ahead.next (h : Ahead b (xs ++ ys)) : Next b xs := by
  have hlow := h.inBuffer.low
  have hcapacity := h.inBuffer.capacity
  have hroom := h.room
  rw [List.length_append] at hroom
  exact ⟨by omega, by omega, by omega, h.append.1⟩

theorem Next.head {v : UInt8} (h : Next b (v :: ys)) :
    b.position < b.capacity ∧ b.data b.position = v ∧
      b.advance 1 = { b with position := b.position + 1 } ∧ Next (b.advance 1) ys := by
  have hlow := h.low
  have hhigh := h.high
  have hroom := h.room
  have hcontents := h.contents
  rw [List.length_cons] at hroom hcontents
  rw [Nat.add_comm, load_append] at hcontents
  obtain ⟨hbyte, hrest⟩ := List.cons.inj hcontents
  have hposition : wrap32 (b.position + (1 : Nat)) = b.position + 1 :=
    wrap32_eq (by omega) (by omega)
  have hadvance : b.advance 1 = { b with position := b.position + 1 } := by
    rw [advance, hposition]
  refine ⟨by omega, by simpa using hbyte, hadvance, ?_⟩
  rw [hadvance]
  exact ⟨by show _ ≤ b.position + 1; omega, hhigh, by show b.position + 1 + _ ≤ b.capacity; omega,
    hrest⟩

theorem Next.readVarint_last {rounds shift acc n : Nat} (h : Next b [UInt8.ofNat n])
    (hacc : acc < 2 ^ shift) (hsum : acc + n * 2 ^ shift < 2 ^ 32) (hn : n < 128) :
    readVarintLoop (rounds + 1) shift acc b =
      (acc + n * 2 ^ shift, { b with position := b.position + 1 }) := by
  obtain ⟨hmore, hbyte, hadvance, -⟩ := h.head
  have hnat : (UInt8.ofNat n).toNat = n := by
    rw [UInt8.toNat_ofNat']
    omega
  rw [readVarintLoop, if_pos hmore, hbyte, hnat]
  dsimp only
  rw [if_pos hn, Nat.mod_eq_of_lt hn, or_shiftLeft hacc, Nat.mod_eq_of_lt hsum, hadvance]

/-- The loop reads a varint off: the bits it has, and the number above them. -/
theorem Next.readVarintLoop (rounds : Nat) :
    ∀ (shift acc n : Nat) {b : NetudpBuffer}, Next b (varintBytes rounds n) →
      shift + 7 * rounds = 28 → acc < 2 ^ shift → acc + n * 2 ^ shift < 2 ^ 32 →
      n < 128 ^ (rounds + 1) →
      NetudpBuffer.readVarintLoop (rounds + 1) shift acc b = (acc + n * 2 ^ shift,
        { b with position := b.position + (varintBytes rounds n).length }) := by
  induction rounds with
  | zero =>
    intro shift acc n b h _ hacc hsum hn
    exact h.readVarint_last hacc hsum (by omega)
  | succ rounds ih =>
    intro shift acc n b h hshift hacc hsum hn
    rw [varintBytes] at h ⊢
    by_cases hlong : 0x7F < n
    · rw [if_pos hlong] at h ⊢
      obtain ⟨hmore, hbyte, hadvance, hnext⟩ := h.head
      have hnat : (UInt8.ofNat (n % 128 + 128)).toNat = n % 128 + 128 := by
        rw [UInt8.toNat_ofNat']
        omega
      -- Seven bits more are read, and the number above them is a 128th.
      have hsplit : acc + n % 128 * 2 ^ shift + n / 128 * 2 ^ (shift + 7) =
          acc + n * 2 ^ shift := add_field_rest acc n shift 7
      have hbits : acc + n % 128 * 2 ^ shift < 2 ^ (shift + 7) :=
        add_field_lt (w := 7) hacc (Nat.mod_lt n (by decide))
      have hmodulo : (acc ||| ((n % 128 + 128) % 128) <<< shift) % 2 ^ 32 =
          acc + n % 128 * 2 ^ shift := by
        rw [Nat.add_mod_right, Nat.mod_mod, or_shiftLeft hacc, Nat.mod_eq_of_lt (by omega)]
      have hrest := ih (shift + 7) (acc + n % 128 * 2 ^ shift) (n / 128) hnext (by omega) hbits
        (by omega) (by rw [pow_succ] at hn; omega)
      rw [NetudpBuffer.readVarintLoop, if_pos hmore, hbyte, hnat]
      dsimp only
      rw [if_neg (by omega), if_neg (by omega), hmodulo, hrest, hsplit, hadvance,
        List.length_cons, Int.natCast_succ, Int.add_assoc, Int.add_comm 1]
    · rw [if_neg hlong] at h ⊢
      exact h.readVarint_last hacc hsum (by omega)

theorem Next.readVarint {v : Int32} (h : Next b (varintBytes 4 v.toUInt32.toNat)) :
    b.readVarint =
      (v, { b with position := b.position + (varintBytes 4 v.toUInt32.toNat).length }) := by
  have hlt := v.toUInt32.toNat_lt
  have hloop := Next.readVarintLoop 4 0 0 v.toUInt32.toNat h rfl (by decide) (by omega) (by omega)
  rw [NetudpBuffer.readVarint, hloop]
  simp

theorem Ahead.readVarint {v : Int32} (h : Ahead b (varintBytes 4 v.toUInt32.toNat ++ ys)) :
    b.readVarint.1 = v ∧ Ahead b.readVarint.2 ys := by
  have hroom := h.room
  rw [List.length_append] at hroom
  have hadvance : b.advance (varintBytes 4 v.toUInt32.toNat).length =
      { b with position := b.position + (varintBytes 4 v.toUInt32.toNat).length } := by
    rw [← position_advance h.inBuffer (by omega)]
    rfl
  rw [h.next.readVarint, ← hadvance]
  exact ⟨rfl, h.append.2⟩

/-- The length in front of a text, which fits into two bytes as the text fits into the
buffer. -/
theorem Ahead.readLength {text : List UInt8} {len : Nat} (hlength : text.length = len)
    (h : Ahead b (leBytes 2 len ++ (text ++ ys))) :
    b.readU16 = (UInt16.ofNat len, b.advance 2) ∧ (UInt16.ofNat len).toNat = len ∧
      Ahead (b.advance 2) (text ++ ys) := by
  have hroom := h.room
  have hlow := h.inBuffer.low
  have hcapacity := h.inBuffer.capacity
  rw [List.length_append, List.length_append, length_leBytes] at hroom
  have hlen : len < 2 ^ 16 := by omega
  obtain ⟨hread, hnext⟩ := h.readNumber hlen
  refine ⟨by simp only [NetudpBuffer.readU16, hread], ?_, hnext⟩
  rw [UInt16.toNat_ofNat', Nat.mod_eq_of_lt hlen]

/-- **What a write put in front is read back.** -/
theorem Ahead.readBack {w : BufferWrite} (h : Ahead b (w.encoding ++ ys)) :
    (b.readBack w).1 = w.value ∧ Ahead (b.readBack w).2 ys := by
  cases w with
  | u8 v =>
    obtain ⟨hread, hrest⟩ := Ahead.readU8 h
    simp only [NetudpBuffer.readBack, hread, BufferWrite.value]
    exact ⟨trivial, hrest⟩
  | u16 v =>
    obtain ⟨hread, hrest⟩ := h.readNumber v.toNat_lt
    simp only [NetudpBuffer.readBack, readU16, hread, UInt16.ofNat_toNat, BufferWrite.value]
    exact ⟨trivial, hrest⟩
  | u32 v =>
    obtain ⟨hread, hrest⟩ := h.readNumber v.toNat_lt
    simp only [NetudpBuffer.readBack, readU32, hread, UInt32.ofNat_toNat, BufferWrite.value]
    exact ⟨trivial, hrest⟩
  | u64 v =>
    obtain ⟨hread, hrest⟩ := h.readNumber v.toNat_lt
    simp only [NetudpBuffer.readBack, readU64, hread, UInt64.ofNat_toNat, BufferWrite.value]
    exact ⟨trivial, hrest⟩
  | f32 bits =>
    obtain ⟨hread, hrest⟩ := h.readNumber bits.toNat_lt
    simp only [NetudpBuffer.readBack, readF32, hread, UInt32.ofNat_toNat, BufferWrite.value]
    exact ⟨trivial, hrest⟩
  | f64 bits =>
    obtain ⟨hread, hrest⟩ := h.readNumber bits.toNat_lt
    simp only [NetudpBuffer.readBack, readF64, hread, UInt64.ofNat_toNat, BufferWrite.value]
    exact ⟨trivial, hrest⟩
  | varint v =>
    obtain ⟨hread, hrest⟩ := Ahead.readVarint h
    simp only [NetudpBuffer.readBack, hread, BufferWrite.value]
    exact ⟨trivial, hrest⟩
  | bytes data len =>
    cases data with
    | none => exact ⟨rfl, h⟩
    | some src =>
      obtain ⟨hdata, hrest⟩ := Ahead.readMany _ h
      simp only [BufferWrite.encoding, List.length_map, List.length_range] at hdata hrest
      simp only [NetudpBuffer.readBack, hdata, BufferWrite.value]
      exact ⟨trivial, hrest⟩
  | string str maxLen =>
    cases str with
    | none => exact ⟨rfl, h⟩
    | some src =>
      rw [BufferWrite.encoding, List.append_assoc] at h
      obtain ⟨hread, hnat, hnext⟩ := h.readLength (by rw [List.length_map, List.length_range])
      obtain ⟨hdata, hrest⟩ := Ahead.readMany _ hnext
      rw [List.length_map, List.length_range] at hdata hrest
      simp only [NetudpBuffer.readBack, BufferWrite.value, hread, hnat, hdata]
      exact ⟨trivial, hrest⟩

theorem Ahead.readBackAll (ws : List BufferWrite) : ∀ {b : NetudpBuffer},
    Ahead b (ws.flatMap (·.encoding) ++ ys) →
      (NetudpBuffer.readBackAll ws b).1 = ws.map (·.value) := by
  induction ws with
  | nil => exact fun _ => rfl
  | cons w ws ih =>
    intro b h
    rw [List.flatMap_cons, List.append_assoc] at h
    obtain ⟨hvalue, hrest⟩ := h.readBack
    simp only [NetudpBuffer.readBackAll, hvalue, ih hrest, List.map_cons]

end NetudpBuffer

/-- If the write is a varint, there are five bytes left. -/
def VarintFits (b : NetudpBuffer) (w : BufferWrite) : Prop :=
  ∀ v, w = .varint v → b.position + 5 ≤ b.capacity

instance (b : NetudpBuffer) (w : BufferWrite) : Decidable (VarintFits b w) := by
  cases w with
  | varint v =>
    exact decidable_of_iff (b.position + 5 ≤ b.capacity) ⟨fun h _ _ => h, fun h => h v rfl⟩
  | _ => exact isTrue fun _ => nofun

/-- **What was written is read back**, if it fits into the buffer as a whole and every varint
was written while five bytes were left. -/
theorem writes_read_back (memory : Int → UInt8) (ws : List BufferWrite)
    (hsize : (ws.map (·.encoding.length)).sum ≤ 1200)
    (hvarints : Along afterWrite VarintFits (acquire memory) ws) :
    (readBackAll ws (run afterWrite (acquire memory) ws).rewind).1 = ws.map (·.value) := by
  have hempty : Holds (acquire memory) [] := ⟨inBuffer_acquire memory, rfl, rfl⟩
  have hholds := hempty.run ws (by simpa using hsize) hvarints
  rw [List.nil_append] at hholds
  have hahead := hholds.rewind
  rw [← List.append_nil (ws.flatMap _)] at hahead
  exact Ahead.readBackAll ws hahead

/-- One value of each type, and a string cut to its greatest length. -/
def mixedWrites : List BufferWrite :=
  [.u8 1, .u16 300, .u32 70000, .u64 5000000000, .f32 0x3FC00000, .f64 0x4009000000000000,
    .varint (-1), .bytes (some fun i => UInt8.ofNat i) 3, .string (some fun _ => 104) 2]

theorem mixed_writes_read_back :
    (readBackAll mixedWrites (run afterWrite (acquire fun _ => 0) mixedWrites).rewind).1 =
      [.u8 1, .u16 300, .u32 70000, .u64 5000000000, .f32 0x3FC00000, .f64 0x4009000000000000,
        .varint (-1), .bytes [0, 1, 2], .string 2 [104, 104]] := by
  have hread := writes_read_back (fun _ => 0) mixedWrites (by decide +kernel) (by decide +kernel)
  rw [hread]
  decide +kernel

/-- 1199 bytes and a varint of one byte are 1200 bytes; but the varint is not written. -/
theorem last_varint_dropped :
    let ws : List BufferWrite := [.bytes (some fun _ => 7) 1199, .varint 1]
    (ws.map (·.encoding.length)).sum = 1200 ∧
      (readBackAll ws (run afterWrite (acquire fun _ => 0) ws).rewind).1.getLast? =
        some (.varint 0) := by
  decide +kernel

end Netudp
