/-
The client's receive path (`src/client.cpp`).

`client_handle_data_packet` acts on the frames it knows the way the server does, and
knows fewer of them: a fragment ends its walk, and a DISCONNECT carries no reason.
-/
import Netudp.Client.Packet
import Netudp.Server.Receive

namespace Netudp

open Lib

variable {Key Ct : Type}

/-! ### Reading frames -/

/-- The frame at the head of the bytes and what follows it; `none` where the loop of
`client_handle_data_packet` breaks. -/
def clientReadFrame (numChannels : Nat) : Bytes → Option (Frame × Bytes)
  | [] => none
  | frameType :: rest =>
    let ch := (rest.getD 0 0).toNat
    if frameType = frameUnreliableData ∧ 3 ≤ rest.length then
      let msgLen := leNat ((rest.drop 1).take 2)
      let body := rest.drop 3
      if body.length < msgLen ∨ numChannels ≤ ch then none
      else some (.unreliableData ch (body.take msgLen), body.drop msgLen)
    else if frameType = frameReliableData ∧ 5 ≤ rest.length then
      let msgSeq := leNat ((rest.drop 1).take 2)
      let msgLen := leNat ((rest.drop 3).take 2)
      let body := rest.drop 5
      if body.length < msgLen ∨ numChannels ≤ ch then none
      else some (.reliableData ch msgSeq (body.take msgLen), body.drop msgLen)
    -- Nothing after a DISCONNECT is read, not even a reason.
    else if frameType = frameDisconnect then some (.disconnect 0, [])
    else none

/-- The frames up to where the client's loop ends; every frame takes at least one
byte. -/
def clientReadFrames (numChannels : Nat) : Nat → Bytes → List Frame
  | 0, _ => []
  | fuel + 1, bytes =>
    match clientReadFrame numChannels bytes with
    | none => []
    | some (frame, rest) => frame :: clientReadFrames numChannels fuel rest

/-- The frames of a decrypted payload, after its acknowledgement. -/
def clientPayloadFrames (numChannels : Nat) (plaintext : Bytes) : List Frame :=
  clientReadFrames numChannels plaintext.length (plaintext.drop 8)

/-! ### Acting on them -/

/-- `client_handle_data_packet` up to its loop: the connection, and the frames the loop
then walks over, none if the packet is dropped. -/
def clientOpenFrames (C : Primitives Key Ct) (pid : Nat) (now : Time) (c : Connection Key)
    (packet : Packet Ct) : Connection Key × List Frame :=
  if C.ctLen packet.ct < 1 then (c, [])
  else
    match clientOpenPacket C pid c.keyEpoch packet with
    | (none, e) => ({ c with keyEpoch := e, books := c.books.decryptFailed }, [])
    | (some plaintext, e) =>
      let c := { c with
        keyEpoch := e
        lastRecvTime := now
        books := c.books.packetReceived (1 + C.ctLen packet.ct) }
      if plaintext.length < 8 then (c, [])
      else
        let ack := readAckFields plaintext
        let (newlyAcked, tracker) := c.packetTracker.processAcks ack
        ({ c with
            packetTracker := tracker.onPacketReceived 0 now
            books := c.books.acknowledged newlyAcked (tracker.getSendTime ack.ack) now
              ack.ackDelayUs },
          clientPayloadFrames c.numChannels plaintext)

/-- `client_handle_data_packet`; `true` when the server disconnected, upon which the
connection is no longer active. -/
def clientHandleDataPacket (C : Primitives Key Ct) (pid : Nat) (now : Time) (c : Connection Key)
    (packet : Packet Ct) : Connection Key × Bool :=
  let (c, frames) := clientOpenFrames C pid now c packet
  match c.applyFrames now frames with
  | (c, false) => (c, false)
  | (c, true) => ({ c with active := false }, true)

end Netudp
