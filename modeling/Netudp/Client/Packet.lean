/-
The client's side of the encrypted link (`src/client.cpp`).

The client never starts a rekey, does not look at the rekey prefix and has no grace
window.  Its first packet from the server, the connection-accepted keepalive, is
opened by `netudp_client_update` with nonce zero; every later one by
`client_handle_data_packet` with one past the newest.
-/
import Netudp.Server.Packet

namespace Netudp

variable {Key Ct : Type}

/-- The keys `netudp_client_connect` takes from the token. -/
def clientKeySetup (C : Primitives Key Ct) (clientToServer serverToClient : Key) :
    KeyEpoch Key :=
  { KeyEpoch.fresh C with
    txKey := clientToServer
    rxKey := serverToClient
    txNonceCounter := 0
    replay := .reset }

/-- The flush of `client_send_pending`. -/
def clientSealData (C : Primitives Key Ct) (pid : Nat) (e : KeyEpoch Key) (payload : Bytes) :
    Option (Packet Ct) × KeyEpoch Key :=
  match packetEncrypt C e pid prefixData payload with
  | (none, e) => (none, e)
  | (some ct, e) => (some ⟨prefixData, ct⟩, e)

/-- The connection-accepted keepalive, opened while the client is still connecting. -/
def clientOpenAccept (C : Primitives Key Ct) (pid : Nat) (e : KeyEpoch Key) (p : Packet Ct) :
    Option Bytes × KeyEpoch Key :=
  packetDecrypt C e pid p.prefixByte 0 p.ct

/-- The nonce `client_handle_data_packet` decrypts with. -/
def clientExpectedNonce (r : ReplayProtection) : Nat :=
  (r.mostRecent + 1) % u64Size

/-- The decryption of `client_handle_data_packet`. -/
def clientOpenPacket (C : Primitives Key Ct) (pid : Nat) (e : KeyEpoch Key) (p : Packet Ct) :
    Option Bytes × KeyEpoch Key :=
  packetDecrypt C e pid p.prefixByte (clientExpectedNonce e.replay) p.ct

end Netudp
