/-
The buffer API (`src/api.cpp`).

A buffer of `NETUDP_MTU` bytes with a position in it.  Every call first looks whether what
it needs fits between the position and the capacity, in `int` arithmetic, and does nothing
if it does not.  A varint is looked at as if it had five bytes, however many it has; a string
is written behind its length, and bytes without one.

The array is a stretch of a memory that goes on beyond it.  Floats are their bits.  A buffer
that is null, for which every call returns at once, is left out.
-/
import Netudp.Lib.LittleEndian
import Netudp.Lib.Memory

namespace Netudp

open Lib

/-- `int` arithmetic, modulo 2 ^ 32. -/
def wrap32 (n : Int) : Int := n.bmod (2 ^ 32)

theorem wrap32_eq {n : Int} (hlow : -2 ^ 31 ≤ n) (hhigh : n < 2 ^ 31) : wrap32 n = n :=
  Int.bmod_eq_of_le (by omega) (by omega)

/-- `struct netudp_buffer`, `data` being the memory from the array's first byte on. -/
structure NetudpBuffer where
  data : Int → UInt8
  capacity : Int
  position : Int

namespace NetudpBuffer

/-- A buffer that `netudp_server_acquire_buffer` has found in the memory. -/
def acquire (memory : Int → UInt8) : NetudpBuffer where
  data := store memory 0 1200 fun _ => 0
  capacity := 1200
  position := 0

/-- The position put back to the beginning. -/
def rewind (b : NetudpBuffer) : NetudpBuffer := { b with position := 0 }

/-- `BUF_CHECK` lets the call go on. -/
def fits (b : NetudpBuffer) (needed : Int) : Bool := wrap32 (b.position + needed) ≤ b.capacity

/-- The position moved on. -/
def advance (b : NetudpBuffer) (n : Nat) : NetudpBuffer :=
  { b with position := wrap32 (b.position + n) }

/-- `memcpy` to the position, which moves behind what was copied. -/
def write (b : NetudpBuffer) (n : Nat) (src : Nat → UInt8) : NetudpBuffer :=
  { b with data := store b.data b.position n src }.advance n

/-! ### Writing -/

/-- The bytes of a number, if they fit. -/
def writeRaw (b : NetudpBuffer) (bytes : List UInt8) : NetudpBuffer :=
  if b.fits bytes.length then b.write bytes.length (bytes.getD · 0) else b

/-- `netudp_buffer_write_u8`. -/
def writeU8 (b : NetudpBuffer) (v : UInt8) : NetudpBuffer := b.writeRaw [v]

/-- `netudp_buffer_write_u16`. -/
def writeU16 (b : NetudpBuffer) (v : UInt16) : NetudpBuffer := b.writeRaw (leBytes 2 v.toNat)

/-- `netudp_buffer_write_u32`. -/
def writeU32 (b : NetudpBuffer) (v : UInt32) : NetudpBuffer := b.writeRaw (leBytes 4 v.toNat)

/-- `netudp_buffer_write_u64`. -/
def writeU64 (b : NetudpBuffer) (v : UInt64) : NetudpBuffer := b.writeRaw (leBytes 8 v.toNat)

/-- `netudp_buffer_write_f32`. -/
def writeF32 (b : NetudpBuffer) (bits : UInt32) : NetudpBuffer :=
  b.writeRaw (leBytes 4 bits.toNat)

/-- `netudp_buffer_write_f64`. -/
def writeF64 (b : NetudpBuffer) (bits : UInt64) : NetudpBuffer :=
  b.writeRaw (leBytes 8 bits.toNat)

/-- `data[position++] = v`. -/
def put (b : NetudpBuffer) (v : UInt8) : NetudpBuffer := b.write 1 fun _ => v

/-- The loop of `netudp_buffer_write_varint`: seven bits to a byte, and the top bit set in
all bytes but the last.  A 32-bit number leaves it after four rounds at most. -/
def writeVarintLoop : Nat → Nat → NetudpBuffer → NetudpBuffer
  | 0, uv, b => b.put (UInt8.ofNat uv)
  | rounds + 1, uv, b =>
    if 0x7F < uv then writeVarintLoop rounds (uv / 128) (b.put (UInt8.ofNat (uv % 128 + 128)))
    else b.put (UInt8.ofNat uv)

/-- `netudp_buffer_write_varint`. -/
def writeVarint (b : NetudpBuffer) (v : Int32) : NetudpBuffer :=
  if b.fits 5 then writeVarintLoop 4 v.toUInt32.toNat b else b

/-- `netudp_buffer_write_bytes`. -/
def writeBytes (b : NetudpBuffer) (data : Option (Nat → UInt8)) (len : Int32) : NetudpBuffer :=
  if b.fits len.toInt then
    match data with
    | none => b
    | some src => if 0 < len.toInt then b.write len.toInt.toNat src else b
  else b

/-- The loop that counts the characters of a string, up to `left` more of them. -/
def strLen (str : Nat → UInt8) : Nat → Nat → Nat
  | 0, len => len
  | left + 1, len => if str len = 0 then len else strLen str left (len + 1)

/-- `netudp_buffer_write_string`. -/
def writeString (b : NetudpBuffer) (str : Option (Nat → UInt8)) (maxLen : Int32) :
    NetudpBuffer :=
  match str with
  | none => b
  | some src =>
    let len := strLen src maxLen.toInt.toNat 0
    if b.fits (wrap32 (2 + len)) then
      (b.write 2 ((leBytes 2 len).getD · 0)).write len src
    else b

/-! ### Reading -/

/-- A number of so many bytes, or 0 if they are not there. -/
def readRaw (b : NetudpBuffer) (n : Nat) : Nat × NetudpBuffer :=
  if b.fits n then (leNat (load b.data b.position n), b.advance n) else (0, b)

/-- `netudp_buffer_read_u8`. -/
def readU8 (b : NetudpBuffer) : UInt8 × NetudpBuffer :=
  let (v, b) := b.readRaw 1
  (UInt8.ofNat v, b)

/-- `netudp_buffer_read_u16`. -/
def readU16 (b : NetudpBuffer) : UInt16 × NetudpBuffer :=
  let (v, b) := b.readRaw 2
  (UInt16.ofNat v, b)

/-- `netudp_buffer_read_u32`. -/
def readU32 (b : NetudpBuffer) : UInt32 × NetudpBuffer :=
  let (v, b) := b.readRaw 4
  (UInt32.ofNat v, b)

/-- `netudp_buffer_read_u64`. -/
def readU64 (b : NetudpBuffer) : UInt64 × NetudpBuffer :=
  let (v, b) := b.readRaw 8
  (UInt64.ofNat v, b)

/-- `netudp_buffer_read_f32`. -/
def readF32 (b : NetudpBuffer) : UInt32 × NetudpBuffer :=
  let (v, b) := b.readRaw 4
  (UInt32.ofNat v, b)

/-- `netudp_buffer_read_f64`. -/
def readF64 (b : NetudpBuffer) : UInt64 × NetudpBuffer :=
  let (v, b) := b.readRaw 8
  (UInt64.ofNat v, b)

/-- The loop of `netudp_buffer_read_varint`, which ends at the latest when `shift` is 35. -/
def readVarintLoop : Nat → Nat → Nat → NetudpBuffer → Nat × NetudpBuffer
  | 0, _, result, b => (result, b)
  | rounds + 1, shift, result, b =>
    if b.position < b.capacity then
      let byte := (b.data b.position).toNat
      let b := b.advance 1
      let result := (result ||| (byte % 128) <<< shift) % 2 ^ 32
      if byte < 128 then (result, b)
      else if 35 ≤ shift + 7 then (result, b)
      else readVarintLoop rounds (shift + 7) result b
    else (result, b)

/-- `netudp_buffer_read_varint`. -/
def readVarint (b : NetudpBuffer) : Int32 × NetudpBuffer :=
  let (result, b) := readVarintLoop 5 0 0 b
  ((UInt32.ofNat result).toInt32, b)

end NetudpBuffer

/-! ### Calls -/

/-- A write, with its arguments. -/
inductive BufferWrite where
  | u8 (v : UInt8)
  | u16 (v : UInt16)
  | u32 (v : UInt32)
  | u64 (v : UInt64)
  | f32 (bits : UInt32)
  | f64 (bits : UInt64)
  | varint (v : Int32)
  | bytes (data : Option (Nat → UInt8)) (len : Int32)
  | string (str : Option (Nat → UInt8)) (maxLen : Int32)

/-- A read. -/
inductive BufferRead where
  | u8
  | u16
  | u32
  | u64
  | f32
  | f64
  | varint

namespace NetudpBuffer

/-- The buffer after a write. -/
def afterWrite (b : NetudpBuffer) : BufferWrite → NetudpBuffer
  | .u8 v => b.writeU8 v
  | .u16 v => b.writeU16 v
  | .u32 v => b.writeU32 v
  | .u64 v => b.writeU64 v
  | .f32 bits => b.writeF32 bits
  | .f64 bits => b.writeF64 bits
  | .varint v => b.writeVarint v
  | .bytes data len => b.writeBytes data len
  | .string str maxLen => b.writeString str maxLen

/-- The buffer after a read. -/
def afterRead (b : NetudpBuffer) : BufferRead → NetudpBuffer
  | .u8 => b.readU8.2
  | .u16 => b.readU16.2
  | .u32 => b.readU32.2
  | .u64 => b.readU64.2
  | .f32 => b.readF32.2
  | .f64 => b.readF64.2
  | .varint => b.readVarint.2

end NetudpBuffer

/-- A call on the buffer. -/
inductive BufferCall where
  | write (w : BufferWrite)
  | read (r : BufferRead)

def bufferStep (b : NetudpBuffer) : BufferCall → NetudpBuffer
  | .write w => b.afterWrite w
  | .read r => b.afterRead r

end Netudp
