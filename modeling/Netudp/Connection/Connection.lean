/-
A connection (`src/connection/connection.h`), its send budget
(`src/bandwidth/bandwidth.h`), and the address it is with (`src/socket/socket.cpp`).

The heavy per-connection data is allocated when a client connects and freed when it
goes; a freed block is modelled as a fresh one, which is what the next client gets.
Allocation succeeds.

The fields no send and no receive depends on are together in `Bookkeeping`, and the send
rate of the congestion control, which an update refills the budget with.
-/
import Netudp.Channel.Channel
import Netudp.Connection.Bookkeeping
import Netudp.Core.Buffer
import Netudp.Fragment.Fragment
import Netudp.Reliability.PacketTracker
import Netudp.Server.Packet

namespace Netudp

open Lib

variable {Key Ct : Type}

/-! ### The send budget -/

/-- `struct QueuedBitsBudget`. -/
structure QueuedBitsBudget where
  queuedBits : Int := 0
  burstBits : Int := 32 * 1024 * 8

/-- An `int32_t`.  Out of its range a conversion or an operation has no defined value. -/
def int32 (n : Int) : Option Int :=
  if -2 ^ 31 ≤ n ∧ n < 2 ^ 31 then some n else none

namespace QueuedBitsBudget

/-- `refill`: the product, cut towards zero, is converted first, then subtracted, then
clamped.  Out of range x86-64 converts to the least `int32_t`, and the difference wraps
around. -/
def refill (b : QueuedBitsBudget) (deltaTime : Time) (sendRateBps : Nat) : QueuedBitsBudget :=
  let product := (sendRateBps : ℚ) * 8 * deltaTime
  let bits := (int32 (if 0 ≤ product then product.floor else product.ceil)).getD (-2 ^ 31)
  let queued := wrap32 (b.queuedBits - bits)
  { b with queuedBits := if queued < -b.burstBits then -b.burstBits else queued }

/-- `consume`. -/
def consume (b : QueuedBitsBudget) (packetBytes : Nat) : QueuedBitsBudget :=
  { b with queuedBits := b.queuedBits + packetBytes * 8 }

/-- `can_send`. -/
def canSend (b : QueuedBitsBudget) : Bool := b.queuedBits ≤ 0

/-- `refill`, where all of it is defined. -/
def checkedRefill (b : QueuedBitsBudget) (deltaTime : Time) (sendRateBps : Nat) :
    Option QueuedBitsBudget := do
  let product := (sendRateBps : ℚ) * 8 * deltaTime
  let bits ← int32 (if 0 ≤ product then product.floor else product.ceil)
  let queued ← int32 (b.queuedBits - bits)
  return { b with queuedBits := if queued < -b.burstBits then -b.burstBits else queued }

/-- `consume`, where all of it is defined. -/
def checkedConsume (b : QueuedBitsBudget) (packetBytes : Nat) : Option QueuedBitsBudget := do
  let bits ← int32 (packetBytes * 8)
  let queued ← int32 (b.queuedBits + bits)
  return { b with queuedBits := queued }

end QueuedBitsBudget

/-! ### The connection -/

/-- `struct DeliveredMessage`. -/
structure DeliveredMessage where
  data : Bytes := []
  channel : Nat := 0
  sequence : Nat := 0
  valid : Bool := false
deriving Inhabited

/-- `struct ConnectionData`. -/
structure ConnectionData where
  channels : Channels := .fill {}
  reliableState : Table 4 ReliableChannelState := .fill .reset
  fragmentReassembler : FragmentReassembler := {}
  deliveredMessages : FixedRingBuffer 256 DeliveredMessage := .clear

/-- `netudp_address_t`, padding included.  An IPv4 address is in the first four bytes of
the data. -/
structure Address where
  data : Vector UInt8 16 := .replicate 16 0
  port : UInt16 := 0
  type : UInt8 := 0
  pad : UInt8 := 0
deriving DecidableEq

/-- `htons`, in memory. -/
def beBytes (n : UInt16) : Bytes := [(n.toNat / 256).toUInt8, (n.toNat % 256).toUInt8]

/-- `address_to_sockaddr`: the 128 bytes of the socket address and how many count.  An
IPv6 address is kept as eight numbers, low byte first, and sent high byte first. -/
def addressToSockaddr (a : Address) : Bytes × Nat :=
  let (sa, len) : Bytes × Nat :=
    if a.type = 2 then
      ([10, 0] ++ beBytes a.port ++ [0, 0, 0, 0] ++ (List.range 8).flatMap fun i =>
        [a.data.toList.getD (2 * i + 1) 0, a.data.toList.getD (2 * i) 0], 28)
    else ([2, 0] ++ beBytes a.port ++ a.data.toList.take 4, 16)
  (sa ++ List.replicate (128 - sa.length) 0, len)

/-- `struct Connection`. -/
structure Connection (Key : Type) where
  active : Bool
  address : Address
  clientId : Nat
  keyEpoch : KeyEpoch Key
  packetTracker : PacketTracker
  numChannels : Nat
  cdata : ConnectionData
  budget : QueuedBitsBudget
  lastRecvTime : Time
  lastSendTime : Time
  lastKeepaliveTime : Time
  timeoutSeconds : Nat
  pendingMask : PendingMask
  books : Bookkeeping
  numChannels_le : numChannels ≤ 4

namespace Connection

/-- An idle slot as constructed. -/
def idle (C : Primitives Key Ct) : Connection Key where
  active := false
  address := {}
  clientId := 0
  keyEpoch := KeyEpoch.fresh C
  packetTracker := .reset
  numChannels := 0
  cdata := {}
  budget := {}
  lastRecvTime := 0
  lastSendTime := 0
  lastKeepaliveTime := 0
  timeoutSeconds := 10
  pendingMask := 0
  books := {}
  numChannels_le := Nat.zero_le 4

/-- `ch(i)`. -/
def ch (c : Connection Key) (i : Nat) : Channel := c.cdata.channels.get i

/-- `rs(i)`. -/
def rs (c : Connection Key) (i : Nat) : ReliableChannelState := c.cdata.reliableState.get i

/-- `ch(i)` assigned. -/
def setCh (c : Connection Key) (i : Nat) (channel : Channel) : Connection Key :=
  { c with cdata := { c.cdata with channels := c.cdata.channels.set i channel } }

/-- `rs(i)` assigned. -/
def setRs (c : Connection Key) (i : Nat) (st : ReliableChannelState) : Connection Key :=
  { c with cdata := { c.cdata with reliableState := c.cdata.reliableState.set i st } }

@[simp] theorem rs_setCh (c : Connection Key) (i j : Nat) (channel : Channel) :
    (c.setCh i channel).rs j = c.rs j := rfl

theorem ch_setCh (c : Connection Key) (i j : Nat) (channel : Channel) :
    (c.setCh i channel).ch j = if j % 4 = i % 4 then channel else c.ch j :=
  Table.get_set _ _ _ _

@[simp] theorem ch_setCh_self (c : Connection Key) (i : Nat) (channel : Channel) :
    (c.setCh i channel).ch i = channel :=
  Table.get_set_self _ _ _

theorem setCh_setCh (c : Connection Key) (i : Nat) (a b : Channel) :
    (c.setCh i a).setCh i b = c.setCh i b := by
  unfold setCh
  simp only [Table.set_set]

theorem rs_setRs (c : Connection Key) (i j : Nat) (st : ReliableChannelState) :
    (c.setRs i st).rs j = if j % 4 = i % 4 then st else c.rs j :=
  Table.get_set _ _ _ _

theorem ch_congr (c : Connection Key) {i j : Nat} (h : i % 4 = j % 4) : c.ch i = c.ch j :=
  Table.get_congr _ h

theorem rs_congr (c : Connection Key) {i j : Nat} (h : i % 4 = j % 4) : c.rs i = c.rs j :=
  Table.get_congr _ h

/-- `init_subsystems`. -/
def initSubsystems (c : Connection Key) (configs : List ChannelConfig) (time : Time) :
    Connection Key :=
  let fresh : ConnectionData := {}
  { c with
    numChannels := min configs.length 4
    numChannels_le := Nat.min_le_right _ _
    cdata := { fresh with
      channels := (List.range (min configs.length 4)).foldl
        (fun t i => t.set i ((t.get i).init (configs.getD i {}))) fresh.channels
      fragmentReassembler := .init maxMessageSize }
    packetTracker := .reset
    lastRecvTime := time
    lastSendTime := time
    lastKeepaliveTime := time
    books := c.books.initSubsystems time }

/-- `reset`; the budget, the pending mask and the next slow tick are not among what it
clears. -/
def reset (C : Primitives Key Ct) (c : Connection Key) : Connection Key :=
  { c with
    active := false
    address := {}
    clientId := 0
    keyEpoch := KeyEpoch.fresh C
    packetTracker := .reset
    cdata := {}
    lastRecvTime := 0
    lastSendTime := 0
    lastKeepaliveTime := 0
    timeoutSeconds := 10
    numChannels := 0
    numChannels_le := Nat.zero_le 4
    books := c.books.reset }

end Connection

end Netudp
