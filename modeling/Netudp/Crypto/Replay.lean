/-
Replay protection (`src/crypto/replay.h`).

A 256-cell table of the nonces received, cell `nonce % 256`, and the largest nonce
received.  `UINT64_MAX` marks an empty cell.  Nonces are 64-bit and the one sum the
code forms, `nonce + WINDOW_SIZE`, wraps, so it is taken modulo `2 ^ 64` here.
-/
import Netudp.Lib.Table

namespace Netudp

open Lib

/-- One past the largest 64-bit value. -/
def u64Size : Nat := 2 ^ 64

namespace ReplayProtection

/-- `WINDOW_SIZE`. -/
def windowSize : Nat := 256

/-- `EMPTY_SLOT`, the all-ones word. -/
def emptySlot : Nat := u64Size - 1

end ReplayProtection

/-- `struct ReplayProtection`. -/
structure ReplayProtection where
  mostRecent : Nat
  received : Table 256 Nat

namespace ReplayProtection

/-- `reset`, which is also what the constructor runs. -/
def reset : ReplayProtection where
  mostRecent := 0
  received := .fill emptySlot

/-- `is_duplicate`: the packet is to be rejected, as a duplicate or as too old. -/
def isDuplicate (r : ReplayProtection) (nonce : Nat) : Bool :=
  if windowSize ≤ r.mostRecent ∧ (nonce + windowSize) % u64Size ≤ r.mostRecent then true
  else
    let slotVal := r.received.get nonce
    slotVal != emptySlot && slotVal == nonce

/-- `advance`: mark a nonce as received. -/
def advance (r : ReplayProtection) (nonce : Nat) : ReplayProtection where
  received := r.received.set nonce nonce
  mostRecent := if r.mostRecent < nonce then nonce else r.mostRecent

end ReplayProtection

end Netudp
