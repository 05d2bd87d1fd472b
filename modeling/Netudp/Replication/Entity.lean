/-
Replicated entities (`src/replication/entity.h`).

An entity is an instance of a schema: a buffer with the values of its properties, and a
mask with a bit for every property that has changed since the last replication.  A
setter compares before it writes and sets the bit only on a change.

A float is its bit pattern.  Left out: the priority, the mask of initial snapshots and
the schema id, which nothing modelled here reads.
-/
import Netudp.Crypto.PacketCrypto
import Netudp.Lib.Buffer
import Netudp.Replication.Schema

namespace Netudp

open Lib

/-- `kEntityMaxValueSize`. -/
def entityMaxValueSize : Nat := 2048

/-- `struct Entity`, with a schema. -/
structure Entity where
  active : Bool := true
  entityId : Nat
  schema : Schema
  ownerClient : Option Nat := none
  groupId : Option Nat := none
  dirtyMask : BitVec 64 := 0
  needsInitial : Bool := true
  maxRateHz : ℚ := 20
  lastReplicateTime : Time := 0
  minUpdateInterval : ℚ := 2
  values : Bytes := List.replicate entityMaxValueSize 0

namespace Entity

/-- `valid_prop`, with the property. -/
def validProp (e : Entity) (idx : Nat) (expected : PropType) : Option PropDesc :=
  match e.schema.props[idx]? with
  | none => none
  | some p => if p.type = expected then some p else none

/-- The value written and its bit set. -/
def store (e : Entity) (idx : Nat) (p : PropDesc) (val : Bytes) : Entity :=
  { e with
    values := writeAt e.values p.offset val
    dirtyMask := e.dirtyMask ||| BitVec.twoPow 64 idx }

/-! ### Setters -/

/-- A typed setter: nothing happens if the value is the same as before. -/
def setValue (same : Bytes → Bytes → Bool) (expected : PropType) (e : Entity) (idx : Nat)
    (val : Bytes) : Bool × Entity :=
  match e.validProp idx expected with
  | none => (false, e)
  | some p =>
    if same (readAt e.values p.offset val.length) val then (false, e)
    else (true, e.store idx p val)

/-- `set_u8`. -/
def setU8 (e : Entity) (idx : Nat) (val : UInt8) : Bool × Entity :=
  e.setValue (· == ·) .u8 idx [val]

/-- `set_u16`. -/
def setU16 (e : Entity) (idx : Nat) (val : UInt16) : Bool × Entity :=
  e.setValue (· == ·) .u16 idx (leBytes 2 val.toNat)

/-- `set_i32`, the value in two's complement. -/
def setI32 (e : Entity) (idx : Nat) (val : UInt32) : Bool × Entity :=
  e.setValue (· == ·) .i32 idx (leBytes 4 val.toNat)

/-- A pattern of exponent 255 with a mantissa. -/
def f32IsNan (bits : Nat) : Bool := bits / 2 ^ 23 % 256 = 255 && bits % 2 ^ 23 != 0

/-- `==` on floats: a NaN equals nothing, and the two zeros are equal. -/
def f32Equal (a b : Nat) : Bool :=
  !f32IsNan a && !f32IsNan b && (a == b || (a % 2 ^ 31 == 0 && b % 2 ^ 31 == 0))

/-- `set_f32`, which compares as floats. -/
def setF32 (e : Entity) (idx : Nat) (bits : UInt32) : Bool × Entity :=
  e.setValue (fun old new => f32Equal (leNat old) (leNat new)) .f32 idx (leBytes 4 bits.toNat)

/-- `set_vec3`. -/
def setVec3 (e : Entity) (idx : Nat) (v : Vector UInt32 3) : Bool × Entity :=
  e.setValue (· == ·) .vec3 idx (v.toList.flatMap fun x => leBytes 4 x.toNat)

/-- `set_quat`. -/
def setQuat (e : Entity) (idx : Nat) (q : Vector UInt32 4) : Bool × Entity :=
  e.setValue (· == ·) .quat idx (q.toList.flatMap fun x => leBytes 4 x.toNat)

/-- `set_blob`, which may write less than the property holds. -/
def setBlob (e : Entity) (idx : Nat) (data : Bytes) : Bool × Entity :=
  match e.validProp idx .blob with
  | none => (false, e)
  | some p =>
    if p.blobCapacity < data.length then (false, e)
    else if readAt e.values p.offset data.length == data then (false, e)
    else (true, e.store idx p data)

end Entity

/-- A call of a setter. -/
inductive SetCall where
  | u8 (idx : Nat) (val : UInt8)
  | u16 (idx : Nat) (val : UInt16)
  | i32 (idx : Nat) (val : UInt32)
  | f32 (idx : Nat) (bits : UInt32)
  | vec3 (idx : Nat) (v : Vector UInt32 3)
  | quat (idx : Nat) (q : Vector UInt32 4)
  | blob (idx : Nat) (data : Bytes)

/-- The entity after the call. -/
def Entity.set (e : Entity) : SetCall → Bool × Entity
  | .u8 idx val => e.setU8 idx val
  | .u16 idx val => e.setU16 idx val
  | .i32 idx val => e.setI32 idx val
  | .f32 idx bits => e.setF32 idx bits
  | .vec3 idx v => e.setVec3 idx v
  | .quat idx q => e.setQuat idx q
  | .blob idx data => e.setBlob idx data

end Netudp
