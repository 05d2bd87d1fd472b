/-
Packet sequences and acknowledgements (`src/reliability/packet_tracker.h`).

Every packet an endpoint sends takes the next 16-bit sequence and starts with eight
bytes of acknowledgement.  The last 33 packets sent are remembered by their sequence
modulo 33.
-/
import Netudp.Reliability.ReliableChannel

namespace Netudp

open Lib

/-- `struct AckFields`. -/
structure AckFields where
  ack : Nat := 0
  ackBits : BitVec 32 := 0
  ackDelayUs : Nat := 0

/-- `struct SentPacketRecord`. -/
structure SentPacketRecord where
  sendTime : Time := 0
  sequence : Nat := 0
  acked : Bool := false

/-- `class PacketTracker`; `PACKET_WINDOW_SIZE` is 33. -/
structure PacketTracker where
  sendSequence : Nat
  oldestUnacked : Nat
  recvAck : Nat
  recvAckBits : BitVec 32
  recvTime : Time
  receivedAny : Bool
  sent : Table 33 SentPacketRecord

namespace PacketTracker

/-- `reset`, and the tracker as constructed. -/
def reset : PacketTracker where
  sendSequence := 0
  oldestUnacked := 0
  recvAck := 0
  recvAckBits := 0
  recvTime := 0
  receivedAny := false
  sent := .fill {}

/-- `send_packet`. -/
def sendPacket (t : PacketTracker) (time : Time) : PacketTracker :=
  { t with
    sendSequence := (t.sendSequence + 1) % u16Size
    sent := t.sent.set t.sendSequence
      { sendTime := time, sequence := t.sendSequence, acked := false } }

/-- `is_window_full`. -/
def isWindowFull (t : PacketTracker) : Bool :=
  33 ≤ ahead u16Size t.oldestUnacked t.sendSequence

/-- `on_packet_received`. -/
def onPacketReceived (t : PacketTracker) (sequence : Nat) (time : Time) : PacketTracker :=
  if !t.receivedAny then
    { t with recvAck := sequence, recvTime := time, receivedAny := true }
  else
    let diff := serialDiff u16Size sequence t.recvAck
    if 0 < diff then
      let shift := diff.toNat
      let bits := if shift < 32 then (t.recvAckBits <<< shift) ||| BitVec.twoPow 32 (shift - 1)
        else 0
      { t with recvAckBits := bits, recvAck := sequence, recvTime := time }
    else if diff < 0 ∧ -32 < diff then
      { t with recvAckBits := t.recvAckBits ||| BitVec.twoPow 32 ((-diff).toNat - 1) }
    else t

/-- `build_ack_fields`; the delay is converted to a `uint32_t` before it is capped, which
keeps the low 32 bits of one that is too long. -/
def buildAckFields (t : PacketTracker) (now : Time) : AckFields :=
  { ack := t.recvAck
    ackBits := t.recvAckBits
    ackDelayUs :=
      if t.receivedAny then
        min (((max (now - t.recvTime) 0) * 1000000).floor.toNat % u32Size) 65535
      else 0 }

/-- `mark_acked`: whether the packet was not acknowledged before. -/
def markAcked (t : PacketTracker) (seq : Nat) : Bool × PacketTracker :=
  let record := t.sent.get seq
  if record.sequence = seq ∧ record.acked = false then
    (true, { t with sent := t.sent.set seq { record with acked := true } })
  else (false, t)

/-- The last loop of `process_acks`.  The oldest sequence reaches the next one to send
within `2 ^ 16` rounds. -/
def advanceOldest : Nat → PacketTracker → PacketTracker
  | 0, t => t
  | fuel + 1, t =>
    let record := t.sent.get t.oldestUnacked
    if t.oldestUnacked = t.sendSequence ∨ record.acked = false ∨
        record.sequence ≠ t.oldestUnacked then t
    else advanceOldest fuel { t with oldestUnacked := (t.oldestUnacked + 1) % u16Size }

/-- `process_acks`: the number of newly acknowledged packets. -/
def processAcks (t : PacketTracker) (fields : AckFields) : Nat × PacketTracker :=
  let mark (acc : Nat × PacketTracker) (seq : Nat) : Nat × PacketTracker :=
    let (newly, t) := acc.2.markAcked seq
    (if newly then acc.1 + 1 else acc.1, t)
  let acc := mark (0, t) fields.ack
  let acc := (List.range 32).foldl
    (fun acc i =>
      if fields.ackBits.getLsbD i then mark acc ((fields.ack + u16Size - (i + 1)) % u16Size)
      else acc)
    acc
  (acc.1, acc.2.advanceOldest u16Size)

/-- `is_acked`. -/
def isAcked (t : PacketTracker) (seq : Nat) : Bool :=
  (t.sent.get seq).acked && (t.sent.get seq).sequence == seq

/-- `get_send_time`. -/
def getSendTime (t : PacketTracker) (seq : Nat) : Time :=
  if (t.sent.get seq).sequence = seq then (t.sent.get seq).sendTime else -1

end PacketTracker

/-! ### The acknowledgement on the wire -/

/-- `write_ack_fields`: 8 bytes. -/
def writeAckFields (fields : AckFields) : Bytes :=
  leBytes 2 fields.ack ++ leBytes 4 fields.ackBits.toNat ++ leBytes 2 fields.ackDelayUs

/-- `read_ack_fields`. -/
def readAckFields (buf : Bytes) : AckFields where
  ack := leNat (buf.take 2)
  ackBits := BitVec.ofNat 32 (leNat ((buf.drop 2).take 4))
  ackDelayUs := leNat ((buf.drop 6).take 2)

@[simp] theorem length_writeAckFields (fields : AckFields) :
    (writeAckFields fields).length = 8 := by
  simp [writeAckFields]

end Netudp
