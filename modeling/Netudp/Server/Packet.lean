/-
The server's side of the encrypted link (`src/server.cpp`).

The parts of the packet handlers that touch a connection's `KeyEpoch`: how a new
connection is keyed, how an outgoing packet is sealed, with the rekey that
`server_send_pending` may start, and how an incoming packet is opened.  The nonce is
not on the wire; the server takes it from its own replay window.
-/
import Netudp.Crypto.PacketCrypto

namespace Netudp

variable {Key Ct : Type}

/-- The clear prefix and the ciphertext of a packet.  The slot id a client puts
between the two picks the connection and is not authenticated. -/
structure Packet (Ct : Type) where
  prefixByte : UInt8
  ct : Ct
deriving DecidableEq

/-- The prefix of a data packet. -/
def prefixData : UInt8 := 0x14

/-- The prefix of a keepalive. -/
def prefixKeepalive : UInt8 := 0x15

/-- The keys of a connection `server_handle_connection_request` establishes in a
slot that has been reset. -/
def serverKeySetup (C : Primitives Key Ct) (clientToServer serverToClient : Key) :
    KeyEpoch Key :=
  { KeyEpoch.fresh C with
    txKey := serverToClient
    rxKey := clientToServer
    txNonceCounter := 0
    replay := .reset }

/-! ### Sending -/

/-- The flush of `server_send_pending`: start a rekey when one is due, encrypt, and
switch keys once the rekey packet has gone out under the old ones. -/
def serverSealData (C : Primitives Key Ct) (pid : Nat) (now : Time) (e : KeyEpoch Key)
    (payload : Bytes) : Option (Packet Ct) × KeyEpoch Key :=
  let e := if shouldRekey e now && !e.rekeyPending then prepareRekey e else e
  let prefixByte := if e.rekeyPending then packetPrefixDataRekey else prefixData
  match packetEncrypt C e pid prefixByte payload with
  | (none, e) => (none, e)
  | (some ct, e) =>
    (some ⟨prefixByte, ct⟩, if e.rekeyPending then activateRekey C e now else e)

/-- A keepalive never rekeys. -/
def sealKeepalive (C : Primitives Key Ct) (pid : Nat) (e : KeyEpoch Key) (payload : Bytes) :
    Option (Packet Ct) × KeyEpoch Key :=
  match packetEncrypt C e pid prefixKeepalive payload with
  | (none, e) => (none, e)
  | (some ct, e) => (some ⟨prefixKeepalive, ct⟩, e)

/-! ### Receiving -/

/-- The nonce `server_handle_data_packet` decrypts with: one past the newest, or
zero when nothing has been received. -/
def serverExpectedNonce (r : ReplayProtection) : Nat :=
  if r.mostRecent = 0 ∧ r.received.get 0 = ReplayProtection.emptySlot then 0
  else (r.mostRecent + 1) % u64Size

/-- A rekey packet, once decrypted, rekeys the receiver. -/
def onPrefix (C : Primitives Key Ct) (now : Time) (e : KeyEpoch Key) (prefixByte : UInt8) :
    KeyEpoch Key :=
  if prefixByte = packetPrefixDataRekey then onReceiveRekey C e now else e

/-- The decryption of `server_handle_data_packet`: the current key, then the old one. -/
def serverOpenPacket (C : Primitives Key Ct) (pid : Nat) (now : Time) (e : KeyEpoch Key)
    (p : Packet Ct) : Option Bytes × KeyEpoch Key :=
  let expectedNonce := serverExpectedNonce e.replay
  match packetDecrypt C e pid p.prefixByte expectedNonce p.ct with
  | (some pt, e) => (some pt, onPrefix C now e p.prefixByte)
  | (none, e) =>
    match packetDecryptGrace C e pid p.prefixByte expectedNonce p.ct with
    | (some pt, e) => (some pt, onPrefix C now e p.prefixByte)
    | (none, e) => (none, e)

end Netudp
