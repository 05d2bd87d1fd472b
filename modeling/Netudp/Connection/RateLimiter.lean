/-
The rate limiter (`src/connection/rate_limiter.h`).

Every source address has a bucket of tokens in a table of 4096.  A packet takes a token;
tokens come back at a rate, up to a burst.  An address that is not in the table is let
through and gets a bucket, one short of full; whether the table had room for it is not
asked.

The code writes through the pointer that `find` returns.  The model inserts the bucket
again under the key it was found by, which writes the same cell.  Times and tokens are
numbers of an ordered field.
-/
import Mathlib.Algebra.Order.Field.Basic
import Netudp.Server.Server

namespace Netudp

open Lib

/-- `AddressKey`: 20 bytes. -/
structure AddressKey where
  bytes : Vector UInt8 20
deriving DecidableEq

instance : RawBytes AddressKey := ⟨fun key => key.bytes.toList⟩

/-- `make_key`: the type, the bytes of the address that count, and the port. -/
def makeKey (addr : Address) : AddressKey :=
  ⟨.ofFn fun i =>
    if i.val = 0 then addr.type
    else if i.val < 1 + addressDataLen addr then addr.data.toList.getD (i.val - 1) 0
    else if i.val = 17 then (addr.port.toNat % 256).toUInt8
    else if i.val = 18 then (addr.port.toNat / 256).toUInt8
    else 0⟩

/-- `struct RateBucket`. -/
structure RateBucket (R : Type) where
  tokens : R
  lastRefillTime : R
  lastActivityTime : R

/-- `class RateLimiter`. -/
structure RateLimiter (R : Type) where
  buckets : FixedHashMap 4096 AddressKey (RateBucket R) := .clear

namespace RateLimits

-- The rate, the burst and the expiry as numerals: each has one instance, here and where
-- something is proved of it.
scoped instance atLeastTwo_60 : Nat.AtLeastTwo 60 := ⟨by decide⟩

scoped instance atLeastTwo_10 : Nat.AtLeastTwo 10 := ⟨by decide⟩

scoped instance atLeastTwo_30 : Nat.AtLeastTwo 30 := ⟨by decide⟩

end RateLimits

open scoped RateLimits

variable {R : Type} [Field R] [LinearOrder R]

namespace RateBucket

/-- The part of `allow` that refills: `RATE` tokens for each second, up to `BURST`. -/
def refill (bucket : RateBucket R) (now : R) : RateBucket R :=
  let elapsed := now - bucket.lastRefillTime
  if 0 < elapsed then
    let tokens := bucket.tokens + 60 * elapsed
    { bucket with tokens := if 10 < tokens then 10 else tokens, lastRefillTime := now }
  else bucket

/-- What `allow` does with a bucket it has found: it is refilled, and one token is consumed
if there is one. -/
def take (bucket : RateBucket R) (now : R) : Bool × RateBucket R :=
  let bucket := { bucket.refill now with lastActivityTime := now }
  if 1 ≤ bucket.tokens then (true, { bucket with tokens := bucket.tokens - 1 })
  else (false, bucket)

end RateBucket

namespace RateLimiter

/-- `allow`. -/
def allow (l : RateLimiter R) (addr : Address) (now : R) : Bool × RateLimiter R :=
  let key := makeKey addr
  match l.buckets.find fnv1a key with
  | none => (true, ⟨(l.buckets.insert fnv1a key ⟨10 - 1, now, now⟩).2⟩)
  | some bucket =>
    let (allowed, bucket) := bucket.take now
    (allowed, ⟨(l.buckets.insert fnv1a key bucket).2⟩)

/-- The keys `cleanup` collects: at most 64, of buckets not used for more than
`EXPIRY_SEC`. -/
def expiredKeys (l : RateLimiter R) (now : R) : List AddressKey :=
  ((List.range 4096).filterMap fun i =>
    (l.buckets.slots.get i).bind fun entry =>
      if 30 < now - entry.2.lastActivityTime then some entry.1 else none).take 64

/-- `cleanup`. -/
def cleanup (l : RateLimiter R) (now : R) : RateLimiter R :=
  ⟨(l.expiredKeys now).foldl (fun buckets key => (buckets.remove fnv1a key).2) l.buckets⟩

end RateLimiter

end Netudp
