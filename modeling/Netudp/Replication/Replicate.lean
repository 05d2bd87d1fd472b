/-
The replication codec (`src/replication/replicate.cpp`).

An update on the wire is the entity id, a varint with the mask of the properties it
carries, and their values in the order of the schema.  What is carried is what changed,
or everything in an initial snapshot, less what the conditions of a property keep from
the client.

The conversions of vectors and quaternions compute with floats and are parameters of the
codec; those of single floats work on bits.  The one of vectors is here as well, on the
values of the floats, none of which it rounds.  A shift of `1ULL` by 64 places is undefined; the model
does what an x86 processor does, which takes the count modulo 64.
-/
import Mathlib.Data.Rat.Floor
import Netudp.Lib.Truncate
import Netudp.Replication.Entity

namespace Netudp

open Lib

/-! ### Varints -/

/-- The loop of `varint_encode`; ten bytes are enough for 64 bits. -/
def varintEncodeFrom : Nat → Nat → Bytes
  | 0, _ => []
  | fuel + 1, val =>
    if val / 128 = 0 then [UInt8.ofNat (val % 128)]
    else UInt8.ofNat (val % 128 + 128) :: varintEncodeFrom fuel (val / 128)

/-- `varint_encode`. -/
def varintEncode (val : Nat) : Bytes := varintEncodeFrom 10 val

/-- The loop of `varint_decode`, with the value and the number of bytes read so far. -/
def varintDecodeFrom (shift result pos : Nat) : Bytes → Option (Nat × Nat)
  | [] => none
  | byte :: rest =>
    if 64 ≤ shift then none
    else
      let result := result ||| (byte.toNat % 128) <<< shift % 2 ^ 64
      if byte.toNat < 128 then some (result, pos + 1)
      else varintDecodeFrom (shift + 7) result (pos + 1) rest

/-- `varint_decode`: the value and the number of bytes it takes. -/
def varintDecode (data : Bytes) : Option (Nat × Nat) := varintDecodeFrom 0 0 0 data

/-! ### Quantization -/

/-- `f32_to_half`. -/
def f32ToHalf (bits : BitVec 32) : BitVec 16 :=
  let sign := (bits >>> 16) &&& 0x8000#32
  let exp : Int := ((bits >>> 23) &&& 0xFF#32).toNat - 127 + 15
  let mant := (bits >>> 13) &&& 0x3FF#32
  if exp ≤ 0 then sign.truncate 16
  else if 31 ≤ exp then (sign ||| 0x7C00#32).truncate 16
  else (sign ||| (BitVec.ofInt 32 exp <<< 10) ||| mant).truncate 16

/-- `half_to_f32`. -/
def halfToF32 (h : BitVec 16) : BitVec 32 :=
  let sign := (h &&& 0x8000#16).zeroExtend 32 <<< 16
  let exp := ((h >>> 10) &&& 0x1F#16).zeroExtend 32
  let mant := (h &&& 0x3FF#16).zeroExtend 32
  if exp = 0 then sign
  else if exp = 31 then sign ||| 0x7F800000#32 ||| (mant <<< 13)
  else sign ||| ((exp - 15 + 127) <<< 23) ||| (mant <<< 13)

/-- `clamp_i`. -/
def clampI (v lo hi : Int) : Int := if v < lo then lo else if hi < v then hi else v

/-- `vec3_quantize`, on the values of the floats: twice a float is exact, and the cast drops
the fraction.  Where the cast has no value, beyond an `int`, this one is clamped like the
others. -/
def vec3Quantize (v : Vector ℚ 3) : BitVec 32 :=
  let x := clampI (toZero (v[0] * 2)) (-1024) 1023
  let y := clampI (toZero (v[1] * 2)) (-1024) 1023
  let z := clampI (toZero (v[2] * 2)) (-512) 511
  let ux := BitVec.ofInt 32 (x + 1024) &&& 0x7FF#32
  let uy := BitVec.ofInt 32 (y + 1024) &&& 0x7FF#32
  let uz := BitVec.ofInt 32 (z + 512) &&& 0x3FF#32
  ux ||| (uy <<< 11) ||| (uz <<< 22)

/-- `vec3_dequantize`, with the values of the floats, which are exact. -/
def vec3Dequantize (packed : BitVec 32) : Vector ℚ 3 :=
  let x : Int := (packed &&& 0x7FF#32).toNat - 1024
  let y : Int := ((packed >>> 11) &&& 0x7FF#32).toNat - 1024
  let z : Int := ((packed >>> 22) &&& 0x3FF#32).toNat - 512
  let out : Vector ℚ 3 := #v[x * (1 / 2), y * (1 / 2), z * (1 / 2)]
  out

/-- The conversions that compute with floats: `vec3_quantize`, `quat_quantize` and their
inverses, on the bytes of the floats. -/
structure Quantizers where
  vec3Quantize : Bytes → UInt32
  vec3Dequantize : UInt32 → Vector UInt8 12
  quatQuantize : Bytes → UInt32
  quatDequantize : UInt32 → Vector UInt8 16

/-! ### Properties on the wire -/

section Codec

variable (Q : Quantizers)

/-- The raw encoding of a property. -/
def writeRaw (p : PropDesc) (val : Bytes) (cap : Nat) : Option Bytes :=
  if cap < p.rawSize then none else some (val.take p.rawSize)

/-- `write_prop`: the bytes written, if `cap` bytes are enough. -/
def writeProp (p : PropDesc) (val : Bytes) (cap : Nat) : Option Bytes :=
  if p.has repQuantize then
    match p.type with
    | .vec3 => if cap < 4 then none else some (leBytes 4 (Q.vec3Quantize (val.take 12)).toNat)
    | .quat => if cap < 4 then none else some (leBytes 4 (Q.quatQuantize (val.take 16)).toNat)
    | .f32 =>
      if cap < 2 then none
      else some (leBytes 2 (f32ToHalf (BitVec.ofNat 32 (leNat (val.take 4)))).toNat)
    | _ => writeRaw p val cap
  else writeRaw p val cap

/-- The raw decoding of a property. -/
def readRaw (p : PropDesc) (wire : Bytes) : Option (Nat × Bytes) :=
  if wire.length < p.rawSize then none else some (p.rawSize, wire.take p.rawSize)

/-- `read_prop`: the number of bytes consumed, and the value. -/
def readProp (p : PropDesc) (wire : Bytes) : Option (Nat × Bytes) :=
  if p.has repQuantize then
    match p.type with
    | .vec3 =>
      if wire.length < 4 then none
      else some (4, (Q.vec3Dequantize (UInt32.ofNat (leNat (wire.take 4)))).toList)
    | .quat =>
      if wire.length < 4 then none
      else some (4, (Q.quatDequantize (UInt32.ofNat (leNat (wire.take 4)))).toList)
    | .f32 =>
      if wire.length < 2 then none
      else some (2, leBytes 4 (halfToF32 (BitVec.ofNat 16 (leNat (wire.take 2)))).toNat)
    | _ => readRaw p wire
  else readRaw p wire

/-- The property is encoded with fewer bytes than it has. -/
def PropDesc.quantized (p : PropDesc) : Bool :=
  p.has repQuantize && (p.type = .vec3 || p.type = .quat || p.type = .f32)

/-! ### Masks -/

/-- `(1ULL << prop_count) - 1`. -/
def initialMask (propCount : Nat) : BitVec 64 := BitVec.twoPow 64 (propCount % 64) - 1

/-- The conditions of a property keep it from the client. -/
def PropDesc.excludes (p : PropDesc) (owner : Option Nat) (targetClient : Nat)
    (isInitial : Bool) : Bool :=
  (p.has repInitialOnly && !isInitial) ||
    (p.has repOwnerOnly && owner != some targetClient) ||
    (p.has repSkipOwner && owner == some targetClient)

/-- The filter loop of `replicate_serialize`, from property `i` on. -/
def filterMask (owner : Option Nat) (targetClient : Nat) (isInitial : Bool) :
    List PropDesc → Nat → BitVec 64 → BitVec 64
  | [], _, mask => mask
  | p :: rest, i, mask =>
    filterMask owner targetClient isInitial rest (i + 1)
      (if mask.getLsbD i && p.excludes owner targetClient isInitial then
        mask &&& ~~~BitVec.twoPow 64 i
      else mask)

/-- The mask `replicate_serialize` sends. -/
def sentMask (e : Entity) (targetClient : Nat) (isInitial : Bool) : BitVec 64 :=
  filterMask e.ownerClient targetClient isInitial e.schema.props 0
    (if isInitial then initialMask e.schema.props.length else e.dirtyMask)

/-! ### Serialization -/

/-- The value loop of `replicate_serialize`, from property `i` on. -/
def writeProps (values : Bytes) (mask : BitVec 64) : List PropDesc → Nat → Nat → Option Bytes
  | [], _, _ => some []
  | p :: rest, i, cap =>
    if mask.getLsbD i then
      match writeProp Q p (values.drop p.offset) cap with
      | none => none
      | some bytes => (writeProps values mask rest (i + 1) (cap - bytes.length)).map (bytes ++ ·)
    else writeProps values mask rest (i + 1) cap

/-- `replicate_serialize`; `none` is an error, and no bytes mean that there is nothing to
send to the client. -/
def replicateSerialize (e : Entity) (outCap targetClient : Nat) (isInitial : Bool) :
    Option Bytes :=
  if outCap < 2 then none
  else
    let mask := sentMask e targetClient isInitial
    if mask = 0 then some []
    else
      let head := leBytes 2 e.entityId ++ varintEncode mask.toNat
      (writeProps Q e.values mask e.schema.props 0 (outCap - head.length)).map (head ++ ·)

/-- The value loop of `replicate_deserialize`, from property `i` on: the number of bytes
consumed, and the values. -/
def readProps (mask : BitVec 64) : List PropDesc → Nat → Bytes → Bytes → Option Nat × Bytes
  | [], _, _, values => (some 0, values)
  | p :: rest, i, wire, values =>
    if mask.getLsbD i then
      match readProp Q p wire with
      | none => (none, values)
      | some (n, val) =>
        let (consumed, values) :=
          readProps mask rest (i + 1) (wire.drop n) (writeAt values p.offset val)
        (consumed.map (n + ·), values)
    else readProps mask rest (i + 1) wire values

/-- What `replicate_deserialize` returns and writes; the id and the mask are not written
when it fails before them. -/
structure Deserialized where
  consumed : Option Nat
  entityId : Option Nat
  dirty : Option (BitVec 64)
  values : Bytes

/-- `replicate_deserialize`, over the values the receiver has. -/
def replicateDeserialize (schema : Schema) (wire values : Bytes) : Deserialized :=
  if wire.length < 3 then ⟨none, none, none, values⟩
  else
    let entityId := leNat (wire.take 2)
    match varintDecode (wire.drop 2) with
    | none => ⟨none, some entityId, none, values⟩
    | some (mask, viLen) =>
      let mask := BitVec.ofNat 64 mask
      let (consumed, values) := readProps Q mask schema.props 0 (wire.drop (2 + viLen)) values
      ⟨consumed.map (2 + viLen + ·), some entityId, some mask, values⟩

end Codec

end Netudp
