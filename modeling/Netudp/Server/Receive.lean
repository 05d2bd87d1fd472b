/-
The server's receive path (`src/server.cpp`).

`server_handle_data_packet` opens a packet, takes its acknowledgements and walks over
its frames; `netudp_server_receive` hands what the frames delivered to the application.
The walk is modelled in two parts, reading the frames and acting on them.  What is read
depends on the bytes and the number of channels only, and a frame's action never changes
that number except by ending the connection, which ends the walk.

An unreliable frame longer than the 1200 bytes of a message slot overruns it in the
code; the model copies the whole of it.
-/
import Netudp.Connection.Connection
import Netudp.Wire.Frame

namespace Netudp

open Lib

variable {Key Ct : Type}

/-! ### Reading frames -/

/-- The frame at the head of the bytes and what follows it; `none` where the loop of
`server_handle_data_packet` breaks. -/
def readFrame (numChannels : Nat) : Bytes → Option (Frame × Bytes)
  | [] => none
  | frameType :: rest =>
    let ch := (rest.getD 0 0).toNat
    if frameType = frameUnreliableData ∧ 3 ≤ rest.length then
      let msgLen := leNat ((rest.drop 1).take 2)
      let body := rest.drop 3
      if body.length < msgLen ∨ numChannels ≤ ch then none
      else some (.unreliableData ch (body.take msgLen), body.drop msgLen)
    else if frameType = frameReliableData ∧ 5 ≤ rest.length then
      let msgSeq := leNat ((rest.drop 1).take 2)
      let msgLen := leNat ((rest.drop 3).take 2)
      let body := rest.drop 5
      if body.length < msgLen ∨ numChannels ≤ ch then none
      else some (.reliableData ch msgSeq (body.take msgLen), body.drop msgLen)
    else if frameType = frameFragmentData ∧ 5 ≤ rest.length then
      let msgId := leNat ((rest.drop 1).take 2)
      let body := rest.drop 5
      -- A fragment takes the rest of the packet, and its channel is not checked.
      if body.length = 0 then none
      else some (.fragmentData ch msgId (rest.getD 3 0).toNat (rest.getD 4 0).toNat body, [])
    else if frameType = frameDisconnect then some (.disconnect (rest.getD 0 0).toNat, [])
    else none

/-- The frames up to where the loop ends; every frame takes at least one byte, so the
length of the payload is fuel enough. -/
def readFrames (numChannels : Nat) : Nat → Bytes → List Frame
  | 0, _ => []
  | fuel + 1, bytes =>
    match readFrame numChannels bytes with
    | none => []
    | some (frame, rest) => frame :: readFrames numChannels fuel rest

/-- The frames of a decrypted payload, after its acknowledgement. -/
def payloadFrames (numChannels : Nat) (plaintext : Bytes) : List Frame :=
  readFrames numChannels plaintext.length (plaintext.drop 8)

/-! ### Acting on them -/

namespace Connection

/-- `delivered().push_back`, whose result the code ignores. -/
def deliver (c : Connection Key) (msg : DeliveredMessage) : Connection Key :=
  { c with cdata := { c.cdata with
    deliveredMessages := (c.cdata.deliveredMessages.pushBack msg).2 } }

/-- A reliable frame: the messages it releases, and the connection with its channel's
state updated. -/
def onReliableData (c : Connection Key) (ch msgSeq : Nat) (data : Bytes) :
    List DeliveredMessage × Connection Key :=
  match (c.ch ch).config.type with
  | .reliableOrdered =>
    match (c.rs ch).bufferReceivedOrdered msgSeq data with
    | (false, st) => ([], c.setRs ch st)
    | (true, st) =>
      let (msgs, st) := st.deliverOrdered
      (msgs.map fun (data, seq) => ⟨data.take mtu, ch, seq, true⟩, c.setRs ch st)
  | .reliableUnordered =>
    if (c.rs ch).isReceivedUnordered msgSeq then ([], c)
    else
      ([⟨data.take mtu, ch, msgSeq, true⟩],
        c.setRs ch ((c.rs ch).markReceivedUnordered msgSeq))
  | _ => ([], c)

/-- What a frame releases for delivery, and the connection before the delivery. -/
def onFrame (now : Time) (c : Connection Key) : Frame → List DeliveredMessage × Connection Key
  | .unreliableData ch data => ([⟨data, ch, 0, true⟩], c)
  | .reliableData ch msgSeq data => c.onReliableData ch msgSeq data
  | .fragmentData ch msgId fragIdx fragCnt data =>
    let (complete, frag) := c.cdata.fragmentReassembler.onFragmentReceived msgId fragIdx fragCnt
      data (mtu - 64) now
    let c := { c with cdata := { c.cdata with fragmentReassembler := frag } }
    match complete with
    | none => ([], c)
    | some message =>
      if message.length = 0 then ([], c) else ([⟨message.take mtu, ch, 0, true⟩], c)
  | .disconnect _ => ([], c)

/-- The statistics of a frame that released so many messages.  A message put together
from fragments counts as a further fragment. -/
def countFrame (c : Connection Key) (released : Nat) : Frame → Connection Key
  | .fragmentData .. => { c with books := c.books.fragmentsReceived (1 + released) }
  | _ => { c with books := c.books.messagesReceived released }

/-- A frame, with what it releases delivered. -/
def applyFrame (now : Time) (c : Connection Key) (frame : Frame) : Connection Key :=
  let (msgs, c) := c.onFrame now frame
  msgs.foldl deliver (c.countFrame msgs.length frame)

/-- The walk over the frames; `true` when a DISCONNECT ended it. -/
def applyFrames (now : Time) : Connection Key → List Frame → Connection Key × Bool
  | c, [] => (c, false)
  | c, .disconnect _ :: _ => (c, true)
  | c, frame :: rest => applyFrames now (c.applyFrame now frame) rest

end Connection

/-- `server_handle_data_packet` up to its loop: the connection, and the frames the loop
then walks over, none if the packet is dropped. -/
def serverOpenFrames (C : Primitives Key Ct) (pid : Nat) (now : Time) (c : Connection Key)
    (packet : Packet Ct) : Connection Key × List Frame :=
  if C.ctLen packet.ct < 1 then (c, [])
  else
    match serverOpenPacket C pid now c.keyEpoch packet with
    | (none, e) => ({ c with keyEpoch := e, books := c.books.decryptFailed }, [])
    | (some plaintext, e) =>
      let c := { c with
        keyEpoch := e
        lastRecvTime := now
        books := c.books.packetReceived (3 + C.ctLen packet.ct) }
      if plaintext.length < 8 then (c, [])
      else
        let ack := readAckFields plaintext
        let (newlyAcked, tracker) := c.packetTracker.processAcks ack
        ({ c with
            packetTracker := tracker.onPacketReceived 0 now
            books := c.books.acknowledged newlyAcked (tracker.getSendTime ack.ack) now
              ack.ackDelayUs },
          payloadFrames c.numChannels plaintext)

/-- `server_handle_data_packet`; `true` when the client disconnected, upon which the
server releases the slot. -/
def serverHandleDataPacket (C : Primitives Key Ct) (pid : Nat) (now : Time) (c : Connection Key)
    (packet : Packet Ct) : Connection Key × Bool :=
  let (c, frames) := serverOpenFrames C pid now c packet
  c.applyFrames now frames

/-! ### Handing over to the application -/

/-- What `netudp_server_receive` does with a message: a registered handler takes it, or
the caller gets it. -/
inductive Handover where
  | handled (msg : DeliveredMessage)
  | returned (msg : DeliveredMessage)

/-- A packet handler is registered for the first byte of the message. -/
def hasHandler (handlers : UInt8 → Bool) (msg : DeliveredMessage) : Bool :=
  match msg.data with
  | [] => false
  | ptype :: _ => handlers ptype

/-- The loop of `netudp_server_receive`, with `room` messages left for the caller.  Each
round takes a message out of the queue. -/
def receiveLoop (handlers : UInt8 → Bool) :
    Nat → Nat → FixedRingBuffer 256 DeliveredMessage →
      List Handover × FixedRingBuffer 256 DeliveredMessage
  | 0, _, q => ([], q)
  | _ + 1, 0, q => ([], q)
  | fuel + 1, room + 1, q =>
    match q.popFront with
    | (none, q) => ([], q)
    | (some msg, q) =>
      if !msg.valid then receiveLoop handlers fuel (room + 1) q
      else if hasHandler handlers msg then
        let (out, q) := receiveLoop handlers fuel (room + 1) q
        (.handled msg :: out, q)
      else
        let (out, q) := receiveLoop handlers fuel room q
        (.returned msg :: out, q)

/-- `netudp_server_receive`, allocation succeeding. -/
def serverReceive (handlers : UInt8 → Bool) (maxMessages : Nat) (c : Connection Key) :
    List Handover × Connection Key :=
  if !c.active then ([], c)
  else
    let (out, q) := receiveLoop handlers c.cdata.deliveredMessages.size maxMessages
      c.cdata.deliveredMessages
    (out, { c with cdata := { c.cdata with deliveredMessages := q } })

end Netudp
