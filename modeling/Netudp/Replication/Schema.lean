/-
Schemas (`src/replication/schema.h`).

A schema lists the properties of an entity type.  Their values lie in one buffer, one
behind the other in the order the properties were added, and property `i` has bit `i` of
the 64-bit dirty mask.  `LaidOut` is what `add_prop` establishes about the offsets, and a
`Schema` carries it.

Left out: the names of the properties, which only `find_prop` reads, and `wire_size` and
`bit_index`, which nothing does.
-/
import Mathlib.Data.List.Basic

namespace Netudp

/-- `enum class PropType`. -/
inductive PropType where
  | u8
  | u16
  | i32
  | f32
  | vec3
  | quat
  | blob
deriving DecidableEq

/-! ### Replication flags -/

/-- The `uint16_t rep_flags` of a property. -/
abbrev RepFlags := BitVec 16

/-- `REP_OWNER_ONLY`. -/
def repOwnerOnly : RepFlags := 0x0001

/-- `REP_SKIP_OWNER`. -/
def repSkipOwner : RepFlags := 0x0002

/-- `REP_INITIAL_ONLY`. -/
def repInitialOnly : RepFlags := 0x0004

/-- `REP_RELIABLE`. -/
def repReliable : RepFlags := 0x0010

/-- `REP_QUANTIZE`. -/
def repQuantize : RepFlags := 0x0020

/-! ### Properties -/

/-- `struct PropDesc`. -/
structure PropDesc where
  type : PropType
  repFlags : RepFlags
  rawSize : Nat
  offset : Nat
  blobCapacity : Nat

/-- `(rep_flags & flag) != 0`. -/
def PropDesc.has (p : PropDesc) (flag : RepFlags) : Bool := p.repFlags &&& flag != 0

/-- The values of the properties fill the buffer from `start` to `stop`, in order. -/
def LaidOut : List PropDesc → Nat → Nat → Prop
  | [], start, stop => start = stop
  | p :: rest, start, stop => p.offset = start ∧ LaidOut rest (start + p.rawSize) stop

theorem laidOut_concat {props : List PropDesc} {p : PropDesc} {start stop : Nat}
    (h : LaidOut props start stop) (hoffset : p.offset = stop) :
    LaidOut (props ++ [p]) start (stop + p.rawSize) := by
  induction props generalizing start with
  | nil =>
    obtain rfl : start = stop := h
    exact ⟨hoffset, rfl⟩
  | cons q rest ih => exact ⟨h.1, ih h.2⟩

/-- `kMaxProperties`. -/
def maxProperties : Nat := 64

/-- `struct Schema`. -/
structure Schema where
  props : List PropDesc
  valueBufferSize : Nat
  count_le : props.length ≤ maxProperties
  laidOut : LaidOut props 0 valueBufferSize

namespace Schema

/-- `Schema{}`. -/
def empty : Schema := ⟨[], 0, Nat.zero_le _, rfl⟩

/-- `add_prop`; `none` when there are 64 properties. -/
def addProp (s : Schema) (type : PropType) (flags : RepFlags) (rawSize : Nat)
    (blobCap : Nat := 0) : Option Schema :=
  if h : s.props.length < maxProperties then
    some
      { props := s.props ++ [⟨type, flags, rawSize, s.valueBufferSize, blobCap⟩]
        valueBufferSize := s.valueBufferSize + rawSize
        count_le := by
          rw [List.length_append]
          exact h
        laidOut := laidOut_concat s.laidOut rfl }
  else none

/-- `netudp_schema_add_u8`. -/
def addU8 (s : Schema) (flags : RepFlags) : Option Schema := s.addProp .u8 flags 1

/-- `netudp_schema_add_u16`. -/
def addU16 (s : Schema) (flags : RepFlags) : Option Schema := s.addProp .u16 flags 2

/-- `netudp_schema_add_i32`. -/
def addI32 (s : Schema) (flags : RepFlags) : Option Schema := s.addProp .i32 flags 4

/-- `netudp_schema_add_f32`. -/
def addF32 (s : Schema) (flags : RepFlags) : Option Schema := s.addProp .f32 flags 4

/-- `netudp_schema_add_vec3`. -/
def addVec3 (s : Schema) (flags : RepFlags) : Option Schema := s.addProp .vec3 flags 12

/-- `netudp_schema_add_quat`. -/
def addQuat (s : Schema) (flags : RepFlags) : Option Schema := s.addProp .quat flags 16

/-- `netudp_schema_add_blob`. -/
def addBlob (s : Schema) (maxBytes : Nat) (flags : RepFlags) : Option Schema :=
  if maxBytes = 0 then none else s.addProp .blob flags maxBytes maxBytes

end Schema

end Netudp
