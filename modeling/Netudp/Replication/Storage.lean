/-
The setters of an entity in memory (`src/replication/entity.h`).

`Entity` has its values in a list of 2048 bytes, which a write cannot leave.  Here they are
what they are in the code, the memory from the beginning of `values` on, and an index or a
length is an `int`: a setter writes where the schema tells it to, and a length becomes a
`size_t`.

Offsets are sums of `int` sizes, which overflow when a schema gets beyond 2 GiB; the model
lets them grow.
-/
import Netudp.Replication.Entity

namespace Netudp

open Lib

/-- The bytes from an address on. -/
abbrev Memory := Nat → UInt8

namespace Memory

/-- `memcpy` of `n` bytes. -/
def copy (m : Memory) (dest : Nat) (src : Memory) (n : Nat) : Memory :=
  fun a => if dest ≤ a ∧ a < dest + n then src (a - dest) else m a

/-- `memcmp` of `n` bytes finds no difference. -/
def Same (m : Memory) (at_ : Nat) (src : Memory) (n : Nat) : Prop := ∀ i < n, m (at_ + i) = src i

instance (m : Memory) (at_ : Nat) (src : Memory) (n : Nat) : Decidable (m.Same at_ src n) :=
  inferInstanceAs (Decidable (∀ i < n, m (at_ + i) = src i))

/-- The `n` bytes from `at_` on. -/
def read (m : Memory) (at_ n : Nat) : Bytes := (List.range n).map fun i => m (at_ + i)

/-- The bytes of a value, at the address of it. -/
def ofBytes (bytes : Bytes) : Memory := fun i => bytes.getD i 0

end Memory

/-- `static_cast<size_t>(len)`. -/
def sizeT (len : Int) : Nat := (len % 2 ^ 64).toNat

/-- What the setters read and write of an entity. -/
structure Storage where
  schema : Schema
  dirtyMask : BitVec 64
  memory : Memory

/-- The property of an index. -/
def Schema.propAt (s : Schema) (idx : Int) : Option PropDesc :=
  if idx < 0 then none else s.props[idx.toNat]?

namespace Storage

/-- `valid_prop`, with the property. -/
def validProp (s : Storage) (idx : Int) (expected : PropType) : Option PropDesc :=
  match s.schema.propAt idx with
  | none => none
  | some p => if p.type = expected then some p else none

/-- `n` bytes copied to the property and its bit set. -/
def store (s : Storage) (idx : Int) (p : PropDesc) (src : Memory) (n : Nat) : Storage :=
  { s with
    memory := s.memory.copy p.offset src n
    dirtyMask := s.dirtyMask ||| BitVec.twoPow 64 idx.toNat }

/-- A typed setter, of a value of the size of its type. -/
def setValue (same : Bytes → Bytes → Bool) (expected : PropType) (s : Storage) (idx : Int)
    (val : Bytes) : Bool × Storage :=
  match s.validProp idx expected with
  | none => (false, s)
  | some p =>
    if same (s.memory.read p.offset val.length) val then (false, s)
    else (true, s.store idx p (.ofBytes val) val.length)

/-- `set_blob`. -/
def setBlob (s : Storage) (idx : Int) (data : Memory) (len : Int) : Bool × Storage :=
  match s.validProp idx .blob with
  | none => (false, s)
  | some p =>
    if (p.blobCapacity : Int) < len then (false, s)
    else if s.memory.Same p.offset data (sizeT len) then (false, s)
    else (true, s.store idx p data (sizeT len))

end Storage

/-- A call of a setter. -/
inductive StoreCall where
  | u8 (idx : Int) (val : UInt8)
  | u16 (idx : Int) (val : UInt16)
  | i32 (idx : Int) (val : UInt32)
  | f32 (idx : Int) (bits : UInt32)
  | vec3 (idx : Int) (v : Vector UInt32 3)
  | quat (idx : Int) (q : Vector UInt32 4)
  | blob (idx : Int) (data : Memory) (len : Int)

/-- The property the call names. -/
def StoreCall.idx : StoreCall → Int
  | .u8 idx _ => idx
  | .u16 idx _ => idx
  | .i32 idx _ => idx
  | .f32 idx _ => idx
  | .vec3 idx _ => idx
  | .quat idx _ => idx
  | .blob idx _ _ => idx

/-- The setters, as those of `Entity`. -/
def Storage.set (s : Storage) : StoreCall → Bool × Storage
  | .u8 idx val => s.setValue (· == ·) .u8 idx [val]
  | .u16 idx val => s.setValue (· == ·) .u16 idx (leBytes 2 val.toNat)
  | .i32 idx val => s.setValue (· == ·) .i32 idx (leBytes 4 val.toNat)
  | .f32 idx bits =>
    s.setValue (fun old new => Entity.f32Equal (leNat old) (leNat new)) .f32 idx
      (leBytes 4 bits.toNat)
  | .vec3 idx v => s.setValue (· == ·) .vec3 idx (v.toList.flatMap fun x => leBytes 4 x.toNat)
  | .quat idx q => s.setValue (· == ·) .quat idx (q.toList.flatMap fun x => leBytes 4 x.toNat)
  | .blob idx data len => s.setBlob idx data len

end Netudp
