/-
Sending what the channels have queued.

`server_send_pending` (`src/server.cpp`) and `client_send_pending` (`src/client.cpp`)
are one loop: take the next message the scheduler offers, flush the packet if the
message does not fit, write its frame, and go on; what is left is flushed at the end.
They differ in the scheduler, in how a packet is sealed and in the length of its
header, which is what a `SendPath` holds.

Every function returns, with the connection, the actions it took in order.
-/
import Netudp.Connection.Connection
import Netudp.Wire.Frame

namespace Netudp

open Lib

variable {Key Ct : Type}

/-- What the send path does that can be observed. -/
inductive SendAction (Key Ct : Type) where
  /-- A message left its channel's queue. -/
  | dequeued (ch : Nat) (msg : QueuedMessage)
  /-- `record_send` stored the bytes under the sequence. -/
  | recorded (ch seq : Nat) (data : Bytes)
  /-- The payload was encrypted under the key and nonce, and the packet sent. -/
  | emitted (key : Key) (nonce : Nat) (payload : Bytes) (packet : Packet Ct)
  /-- `activate_rekey` derived the transmit key and put it in force. -/
  | rekeyed (key : Key)
deriving DecidableEq

/-- The rekey between two states of an epoch: every `activate_rekey` moves the number. -/
def rekeyedTo (e e' : KeyEpoch Key) : List (SendAction Key Ct) :=
  if e'.epochNumber = e.epochNumber then [] else [.rekeyed e'.txKey]

/-- What distinguishes the server's loop from the client's. -/
structure SendPath (Key Ct : Type) where
  /-- The scheduler, which may rewrite the pending mask. -/
  next : Time → Connection Key → Option Nat × Connection Key
  /-- Encryption of a payload. -/
  sealPacket : Time → KeyEpoch Key → Bytes → Option (Packet Ct) × KeyEpoch Key
  /-- The length of a ciphertext. -/
  ctLen : Ct → Nat
  /-- Bytes before the ciphertext. -/
  header : Nat

/-- The packet being filled, the connection, and the actions so far. -/
structure Packing (Key Ct : Type) where
  conn : Connection Key
  payload : Bytes
  framesPacked : Nat
  actions : List (SendAction Key Ct)

namespace Packing

/-- A new packet starts with the acknowledgement. -/
def startPacket (p : Packing Key Ct) (now : Time) : Packing Key Ct :=
  { p with
    payload := writeAckFields (p.conn.packetTracker.buildAckFields now)
    framesPacked := 0 }

/-- Encrypt and send the packet; `false` when the encryption failed. -/
def flush (p : Packing Key Ct) (S : SendPath Key Ct) (now : Time) : Bool × Packing Key Ct :=
  let conn := { p.conn with packetTracker := p.conn.packetTracker.sendPacket now }
  match S.sealPacket now conn.keyEpoch p.payload with
  | (none, e) => (false, { p with conn := { conn with keyEpoch := e } })
  | (some packet, e) =>
    (true,
      { p with
        conn := { conn with
          keyEpoch := e
          lastSendTime := now
          budget := conn.budget.consume (S.header + S.ctLen packet.ct)
          books := conn.books.packetSent (S.header + S.ctLen packet.ct) p.framesPacked }
        actions := p.actions ++
          .emitted conn.keyEpoch.txKey conn.keyEpoch.txNonceCounter p.payload packet ::
            rekeyedTo conn.keyEpoch e })

/-- How a round goes on. -/
inductive Outcome (Key Ct : Type) where
  /-- On with the next step. -/
  | proceed (p : Packing Key Ct)
  /-- `break`: on to the final flush. -/
  | leave (p : Packing Key Ct)
  /-- `return`. -/
  | stop (p : Packing Key Ct)

/-- Flush first when `needed` bytes do not fit behind frames already packed. -/
def makeRoom (p : Packing Key Ct) (S : SendPath Key Ct) (now : Time) (needed : Nat) :
    Outcome Key Ct :=
  if mtu < p.payload.length + needed ∧ 0 < p.framesPacked then
    match p.flush S now with
    | (false, p) => .leave p
    | (true, p) => if p.conn.budget.canSend then .proceed (p.startPacket now) else .stop p
  else .proceed p

/-- Record a reliable message with the reliability layer. -/
def record (p : Packing Key Ct) (now : Time) (ch : Nat) (data : Bytes) : Packing Key Ct :=
  let st := p.conn.rs ch
  match st.recordSend data p.conn.packetTracker.sendSequence now with
  | (false, _) => p
  | (true, st') =>
    { p with
      conn := p.conn.setRs ch st'
      actions := p.actions ++ [.recorded ch st.sendSeq data] }

/-- Append a frame; `false` where the writer returned `-1`. -/
def append (p : Packing Key Ct) : Option Bytes → Bool × Packing Key Ct
  | none => (false, p)
  | some frame =>
    (true, { p with payload := p.payload ++ frame, framesPacked := p.framesPacked + 1 })

/-- Write the message's frame into the payload. -/
def addFrame (p : Packing Key Ct) (now : Time) (ch : Nat) (msg : QueuedMessage) :
    Bool × Packing Key Ct :=
  let remaining := mtu - p.payload.length
  if (p.conn.ch ch).config.type.isReliable then
    (p.record now ch msg.data).append (writeReliableFrame remaining ch msg.sequence msg.data)
  else p.append (writeUnreliableFrame remaining ch msg.data)

/-- The bytes a message's frame takes. -/
def frameNeeded (p : Packing Key Ct) (ch : Nat) (msg : QueuedMessage) : Nat :=
  (if (p.conn.ch ch).config.type.isReliable then 6 else 4) + msg.data.length

/-- The message has left the queue of its channel, which is now `q`. -/
def taken (p : Packing Key Ct) (ch : Nat) (msg : QueuedMessage) (q : Channel) :
    Packing Key Ct :=
  { p with conn := p.conn.setCh ch q, actions := p.actions ++ [.dequeued ch msg] }

/-- Take a message out of its queue. -/
def dequeue (p : Packing Key Ct) (ch : Nat) : Option QueuedMessage × Packing Key Ct :=
  match (p.conn.ch ch).dequeueSend with
  | (none, _) => (none, p)
  | (some msg, q) => (some msg, p.taken ch msg q)

/-- Ask the scheduler. -/
def schedule (p : Packing Key Ct) (S : SendPath Key Ct) (now : Time) :
    Option Nat × Packing Key Ct :=
  let (next, conn) := S.next now p.conn
  (next, { p with conn := conn })

/-- The part of a round that follows a dequeue: make room, write the frame. -/
def pack (p : Packing Key Ct) (S : SendPath Key Ct) (now : Time) (ch : Nat)
    (msg : QueuedMessage) : Outcome Key Ct :=
  match p.makeRoom S now (p.frameNeeded ch msg) with
  | .leave p => .leave p
  | .stop p => .stop p
  | .proceed p =>
    match p.addFrame now ch msg with
    | (false, p) => .leave p
    | (true, p) => .proceed p

/-- One round of the loop, for the channel the scheduler has returned. -/
def round (p : Packing Key Ct) (S : SendPath Key Ct) (now : Time) (ch : Nat) : Outcome Key Ct :=
  match p.dequeue ch with
  | (none, p) => .proceed p
  | (some msg, p) => p.pack S now ch msg

/-- The loop; `false` when it ended in a `return`.  Each round takes one message, so
the fuel never runs out before the queues do. -/
def loop (S : SendPath Key Ct) (now : Time) :
    Nat → Option Nat → Packing Key Ct → Bool × Packing Key Ct
  | 0, _, p => (true, p)
  | _ + 1, none, p => (true, p)
  | fuel + 1, some ch, p =>
    match p.round S now ch with
    | .leave p => (true, p)
    | .stop p => (false, p)
    | .proceed p =>
      let (next, p) := p.schedule S now
      loop S now fuel next p

end Packing

/-- The messages waiting in all queues. -/
def Connection.queued (c : Connection Key) : Nat :=
  ((List.range 4).map fun i => (c.ch i).sendQueue.size).sum

/-- `server_send_pending` and `client_send_pending`. -/
def sendPending (S : SendPath Key Ct) (now : Time) (c : Connection Key) :
    Connection Key × List (SendAction Key Ct) :=
  if !c.budget.canSend then (c, [])
  else
    let p : Packing Key Ct := ⟨c, [], 0, []⟩
    let (next, p) := (p.startPacket now).schedule S now
    let (toFlush, p) := Packing.loop S now (c.queued + 1) next p
    let p := if toFlush && 0 < p.framesPacked then (p.flush S now).2 else p
    (p.conn, p.actions)

end Netudp
