/-
Key epochs and packet encryption (`src/crypto/packet_crypto.{h,cpp}`).

A connection holds one `KeyEpoch`: a key per direction, the transmit nonce counter,
and the replay window of the receive direction.  A rekey derives both keys from the
old ones and resets the counters and the window; the old receive key stays usable
for a grace window of 256 packets.

Counters are naturals reduced modulo their machine width where the code increments
them.  Times are rationals: the doubles of the code without their rounding.
-/
import Netudp.Crypto.Aead
import Netudp.Crypto.Replay

namespace Netudp

open Lib

variable {Key Ct : Type}

/-- Seconds, as the `double`s of the code. -/
abbrev Time := ℚ

/-- One past the largest 32-bit value. -/
def u32Size : Nat := 2 ^ 32

/-! ### Constants -/

/-- `REKEY_NONCE_THRESHOLD`. -/
def rekeyNonceThreshold : Nat := 2 ^ 30

/-- `REKEY_BYTES_THRESHOLD`. -/
def rekeyBytesThreshold : Nat := 2 ^ 30

/-- `REKEY_EPOCH_SECONDS`. -/
def rekeyEpochSeconds : Time := 3600

/-- `REKEY_GRACE_PACKETS`. -/
def rekeyGracePackets : Int := 256

/-- `PACKET_PREFIX_DATA_REKEY`. -/
def packetPrefixDataRekey : UInt8 := 0x0C

/-- `NETUDP_VERSION_INFO`: `"NETUDP 1.01\0"` with its terminator, 13 bytes. -/
def versionInfo : Bytes :=
  [0x4E, 0x45, 0x54, 0x55, 0x44, 0x50, 0x20, 0x31, 0x2E, 0x30, 0x31, 0x00, 0x00]

/-- `kRekeyLabel`, the bytes of `"netudp-rekey"`. -/
def rekeyLabel : Bytes :=
  [0x6E, 0x65, 0x74, 0x75, 0x64, 0x70, 0x2D, 0x72, 0x65, 0x6B, 0x65, 0x79]

/-! ### The epoch -/

/-- `struct KeyEpoch`. -/
structure KeyEpoch (Key : Type) where
  txKey : Key
  rxKey : Key
  oldRxKey : Key
  txNonceCounter : Nat := 0
  bytesTransmitted : Nat := 0
  epochStartTime : Time := 0
  epochNumber : Nat := 0
  gracePacketsRemaining : Int := 0
  rekeyPending : Bool := false
  replay : ReplayProtection := .reset

/-- `KeyEpoch{}`. -/
def KeyEpoch.fresh (C : Primitives Key Ct) : KeyEpoch Key where
  txKey := C.zeroKey
  rxKey := C.zeroKey
  oldRxKey := C.zeroKey

/-- `build_nonce`: the counter, little-endian, in a 24-byte nonce. -/
def buildNonce (counter : Nat) : Bytes :=
  leBytes 8 counter ++ List.replicate 16 0

/-- `build_aad`: version info, protocol id, prefix byte. -/
def buildAad (protocolId : Nat) (prefixByte : UInt8) : Bytes :=
  versionInfo ++ leBytes 8 protocolId ++ [prefixByte]

/-- `derive_key`. -/
def deriveKey (C : Primitives Key Ct) (oldKey : Key) (epochNumber : Nat) : Key :=
  C.blake2bKeyed oldKey (rekeyLabel ++ leBytes 4 epochNumber)

/-! ### Rekeying -/

/-- `should_rekey`. -/
def shouldRekey (e : KeyEpoch Key) (currentTime : Time) : Bool :=
  rekeyNonceThreshold ≤ e.txNonceCounter
    || rekeyBytesThreshold ≤ e.bytesTransmitted
    || (0 < e.epochStartTime && rekeyEpochSeconds ≤ currentTime - e.epochStartTime)

/-- `prepare_rekey`: keep the receive key for the grace window.  The keys do not
change yet, so the rekey packet itself goes out under the old one. -/
def prepareRekey (e : KeyEpoch Key) : KeyEpoch Key :=
  { e with oldRxKey := e.rxKey, rekeyPending := true }

/-- `activate_rekey`: switch to the derived keys and start a new epoch. -/
def activateRekey (C : Primitives Key Ct) (e : KeyEpoch Key) (currentTime : Time) :
    KeyEpoch Key :=
  let nextEpoch := (e.epochNumber + 1) % u32Size
  { e with
    txKey := deriveKey C e.txKey nextEpoch
    rxKey := deriveKey C e.rxKey nextEpoch
    txNonceCounter := 0
    bytesTransmitted := 0
    epochStartTime := currentTime
    epochNumber := nextEpoch
    gracePacketsRemaining := rekeyGracePackets
    rekeyPending := false
    replay := .reset }

/-- `on_receive_rekey`: the receiver's side of a rekey. -/
def onReceiveRekey (C : Primitives Key Ct) (e : KeyEpoch Key) (currentTime : Time) :
    KeyEpoch Key :=
  activateRekey C { e with oldRxKey := e.rxKey } currentTime

/-! ### Packets

Each function returns what the code returns, `none` for a negative length, and the
epoch afterwards.
-/

/-- `packet_encrypt`. -/
def packetEncrypt (C : Primitives Key Ct) (e : KeyEpoch Key) (protocolId : Nat)
    (prefixByte : UInt8) (pt : Bytes) : Option Ct × KeyEpoch Key :=
  match C.encrypt e.txKey (buildNonce e.txNonceCounter) (buildAad protocolId prefixByte) pt with
  | none => (none, e)
  | some ct =>
    (some ct,
      { e with
        txNonceCounter := (e.txNonceCounter + 1) % u64Size
        bytesTransmitted := (e.bytesTransmitted + pt.length) % u64Size })

/-- `packet_decrypt`: replay check, decryption, and only then the window moves. -/
def packetDecrypt (C : Primitives Key Ct) (e : KeyEpoch Key) (protocolId : Nat)
    (prefixByte : UInt8) (nonceCounter : Nat) (ct : Ct) : Option Bytes × KeyEpoch Key :=
  if C.ctLen ct < 1 then (none, e)
  else if e.replay.isDuplicate nonceCounter then (none, e)
  else
    match C.decrypt e.rxKey (buildNonce nonceCounter) (buildAad protocolId prefixByte) ct with
    | none => (none, e)
    | some pt => (some pt, { e with replay := e.replay.advance nonceCounter })

/-- `packet_decrypt_grace`: the old receive key, with no replay check; the key is
wiped when the grace window is used up. -/
def packetDecryptGrace (C : Primitives Key Ct) (e : KeyEpoch Key) (protocolId : Nat)
    (prefixByte : UInt8) (nonceCounter : Nat) (ct : Ct) : Option Bytes × KeyEpoch Key :=
  if C.ctLen ct < 1 then (none, e)
  else if e.gracePacketsRemaining ≤ 0 then (none, e)
  else
    match C.decrypt e.oldRxKey (buildNonce nonceCounter) (buildAad protocolId prefixByte) ct with
    | none => (none, e)
    | some pt =>
      let remaining := e.gracePacketsRemaining - 1
      (some pt,
        { e with
          gracePacketsRemaining := remaining
          oldRxKey := if remaining = 0 then C.zeroKey else e.oldRxKey })

end Netudp
