/-
The fixed-capacity hash map (`src/core/hash_map.h`).

Open addressing with linear probing.  A key is probed from the cell its hash names, and
the probe ends at the first free cell, so a removal takes the entries behind the removed
one out and inserts them again.  Keys are hashed and compared by their bytes.

A cell that is not occupied is `none`: the code never reads the key or the value of one.
-/
import Netudp.Crypto.Aead
import Netudp.Lib.Table

namespace Netudp

open Lib

/-- The object representation of a key, padding included. -/
class RawBytes (K : Type) where
  rawBytes : K → Bytes

export RawBytes (rawBytes)

/-- `FNV1aHash::hash`. -/
def fnv1a (bytes : Bytes) : Nat :=
  bytes.foldl (fun h b => (h ^^^ b.toNat) * 16777619 % 2 ^ 32) 2166136261

/-- `class FixedHashMap<K, V, N>`. -/
structure FixedHashMap (N : Nat) (K V : Type) where
  slots : Table N (Option (K × V))
  size : Nat

namespace FixedHashMap

variable {N : Nat} [NeZero N] {K V : Type} [RawBytes K]

/-- The map as constructed, and after `clear`. -/
def clear : FixedHashMap N K V := ⟨.fill none, 0⟩

/-- The probe loop of `insert`, with `n` cells left to look at. -/
def insertFrom (m : FixedHashMap N K V) (key : K) (value : V) :
    Nat → Nat → Bool × FixedHashMap N K V
  | 0, _ => (false, m)
  | n + 1, slot =>
    match m.slots.get slot with
    | none => (true, ⟨m.slots.set slot (some (key, value)), m.size + 1⟩)
    | some (k, _) =>
      if rawBytes k = rawBytes key then
        (true, { m with slots := m.slots.set slot (some (k, value)) })
      else insertFrom m key value n (slot + 1)

/-- `insert`; `false` when the map is full. -/
def insert (hash : Bytes → Nat) (m : FixedHashMap N K V) (key : K) (value : V) :
    Bool × FixedHashMap N K V :=
  m.insertFrom key value N (hash (rawBytes key))

/-- The cell that `find` and `remove` stop at. -/
def locateFrom (m : FixedHashMap N K V) (key : K) : Nat → Nat → Option (Nat × V)
  | 0, _ => none
  | n + 1, slot =>
    match m.slots.get slot with
    | none => none
    | some (k, value) =>
      if rawBytes k = rawBytes key then some (slot, value) else locateFrom m key n (slot + 1)

/-- The probe loop that `find` and `remove` share. -/
def locate (hash : Bytes → Nat) (m : FixedHashMap N K V) (key : K) : Option (Nat × V) :=
  m.locateFrom key N (hash (rawBytes key))

/-- `find`. -/
def find (hash : Bytes → Nat) (m : FixedHashMap N K V) (key : K) : Option V :=
  (m.locate hash key).map (·.2)

/-- `rehash_after_delete`, from the cell after the deleted one.  The walk stops at a free
cell; an entry it moves gets nearer to the cell its hash names, which bounds the number
of rounds by the fuel `remove` gives. -/
def rehashFrom (hash : Bytes → Nat) : Nat → FixedHashMap N K V → Nat → FixedHashMap N K V
  | 0, m, _ => m
  | fuel + 1, m, slot =>
    match m.slots.get slot with
    | none => m
    | some (key, value) =>
      let m : FixedHashMap N K V := ⟨m.slots.set slot none, m.size - 1⟩
      rehashFrom hash fuel (m.insert hash key value).2 (slot + 1)

/-- `remove`; `false` when the key is not there. -/
def remove (hash : Bytes → Nat) (m : FixedHashMap N K V) (key : K) : Bool × FixedHashMap N K V :=
  match m.locate hash key with
  | none => (false, m)
  | some (slot, _) =>
    let m : FixedHashMap N K V := ⟨m.slots.set slot none, m.size - 1⟩
    (true, rehashFrom hash (N * N * N + N) m (slot + 1))

end FixedHashMap

end Netudp
