/-
Channels and their scheduler (`src/channel/channel.h`).

A channel queues messages, holds them back for its Nagle timer, and hands them out
oldest first.  The scheduler picks the channel of highest priority that has something
ready; the fast variant looks only at channels whose bit is set in a pending mask and
rewrites the mask as it goes.

Left out: the statistics, and `recv_seq_`, which nothing reads.
-/
import Netudp.Core.RingBuffer
import Netudp.Reliability.ReliableChannel

namespace Netudp

open Lib

/-- `netudp_channel_type_t`. -/
inductive ChannelType where
  | unreliable
  | unreliableSequenced
  | reliableOrdered
  | reliableUnordered
deriving DecidableEq

/-- A channel whose messages carry a sequence and are kept for retransmission. -/
def ChannelType.isReliable : ChannelType → Bool
  | .reliableOrdered => true
  | .reliableUnordered => true
  | _ => false

/-- `netudp_channel_config_t`, the fields the channel reads. -/
structure ChannelConfig where
  type : ChannelType := .unreliable
  priority : Nat := 0
  nagleMs : Nat := 0

/-! ### Flags of a send -/

/-- The `int flags` of a send. -/
abbrev SendFlags := BitVec 32

/-- `NETUDP_SEND_NO_NAGLE`. -/
def sendNoNagle : SendFlags := 2

/-- `NETUDP_SEND_NO_DELAY`. -/
def sendNoDelay : SendFlags := 4

/-- `NETUDP_SEND_STATE`. -/
def sendState : SendFlags := 8

/-- `(flags & f) != 0`. -/
def hasFlag (flags f : SendFlags) : Bool := flags &&& f != 0

/-! ### A channel -/

/-- `struct QueuedMessage`. -/
structure QueuedMessage where
  data : Bytes := []
  sequence : Nat := 0
  entityId : Nat := 0
  flags : SendFlags := 0
  valid : Bool := false
deriving Inhabited, DecidableEq

/-- `class Channel`. -/
structure Channel where
  config : ChannelConfig := {}
  sendSeq : Nat := 0
  lastDeliveredSeq : Nat := 0
  nagleAccumulateTime : Time := 0
  nagleThresholdSec : Time := 0
  nagleReady : Bool := false
  sendQueue : FixedRingBuffer 256 QueuedMessage := .clear

namespace Channel

/-- `init`; `nagle_ready_` is not among what it sets. -/
def init (c : Channel) (config : ChannelConfig) : Channel :=
  { c with
    config := config
    sendSeq := 0
    lastDeliveredSeq := 0
    nagleAccumulateTime := 0
    nagleThresholdSec := config.nagleMs / 1000
    sendQueue := .clear }

/-- The scan of `queue_send_impl`, newest first: the position below `n` of a pending
state update of the entity. -/
def findState (q : FixedRingBuffer 256 QueuedMessage) (eid : Nat) : Nat → Option Nat
  | 0 => none
  | i + 1 =>
    if (q.get i).entityId = eid ∧ hasFlag (q.get i).flags sendState then some i
    else findState q eid i

/-- Flags that bypass the Nagle timer. -/
def bypassNagle (c : Channel) (flags : SendFlags) : Channel :=
  if hasFlag flags sendNoNagle || hasFlag flags sendNoDelay then { c with nagleReady := true }
  else c

/-- The part of `queue_send_impl` that appends. -/
def enqueue (c : Channel) (data : Bytes) (flags : SendFlags) (eid : Nat) : Bool × Channel :=
  if c.sendQueue.size = 256 then (false, c)
  else
    let msg : QueuedMessage :=
      { data := data, sequence := c.sendSeq, entityId := eid, flags := flags, valid := true }
    let c := { c with sendSeq := (c.sendSeq + 1) % u16Size }
    let c := c.bypassNagle flags
    (true, { c with sendQueue := (c.sendQueue.pushBack msg).2 })

/-- `queue_send_impl`. -/
def queueSendImpl (c : Channel) (data : Bytes) (flags : SendFlags) (eid : Nat) :
    Bool × Channel :=
  if data.length = 0 ∨ mtu < data.length then (false, c)
  else if hasFlag flags sendState ∧ eid ≠ 0 then
    match findState c.sendQueue eid c.sendQueue.size with
    | some i =>
      let existing := c.sendQueue.get i
      let c := { c with
        sendQueue := c.sendQueue.set i { existing with data := data, flags := flags } }
      (true, c.bypassNagle flags)
    | none => c.enqueue data flags eid
  else c.enqueue data flags eid

/-- `queue_send`. -/
def queueSend (c : Channel) (data : Bytes) (flags : SendFlags) : Bool × Channel :=
  c.queueSendImpl data flags 0

/-- `queue_send_state`. -/
def queueSendState (c : Channel) (data : Bytes) (flags : SendFlags) (eid : Nat) :
    Bool × Channel :=
  c.queueSendImpl data (flags ||| sendState) eid

/-- `has_pending`. -/
def hasPending (c : Channel) (now : Time) : Bool :=
  if c.sendQueue.size = 0 then false
  else if c.nagleReady then true
  else if c.nagleThresholdSec ≤ 0 then true
  else decide (c.nagleThresholdSec ≤ now - c.nagleAccumulateTime)

/-- `dequeue_send`. -/
def dequeueSend (c : Channel) : Option QueuedMessage × Channel :=
  if c.sendQueue.size = 0 then (none, c)
  else
    let (msg, q) := c.sendQueue.popFront
    (msg, { c with sendQueue := q, nagleReady := false, nagleAccumulateTime := 0 })

/-- `start_nagle`. -/
def startNagle (c : Channel) (now : Time) : Channel :=
  if c.nagleAccumulateTime = 0 then { c with nagleAccumulateTime := now } else c

/-- `flush`. -/
def flush (c : Channel) : Channel := { c with nagleReady := true }

/-- `on_recv_unreliable_sequenced`: whether to deliver.  A last delivered number `0` also
stands for none. -/
def onRecvUnreliableSequenced (c : Channel) (sequence : Nat) : Bool × Channel :=
  let diff := serialDiff u16Size sequence c.lastDeliveredSeq
  if diff ≤ 0 ∧ c.lastDeliveredSeq ≠ 0 then (false, c)
  else (true, { c with lastDeliveredSeq := sequence })

end Channel

/-! ### The scheduler -/

/-- The channels of a connection. -/
abbrev Channels := Table 4 Channel

/-- The best channel of a scan so far, with its priority. -/
structure BestChannel where
  best : Option Nat := none
  priority : Nat := 0

/-- A ready channel is taken if it is the first, or of higher priority than the best. -/
def BestChannel.consider (b : BestChannel) (i priority : Nat) : BestChannel :=
  if b.best = none ∨ b.priority < priority then ⟨some i, priority⟩ else b

/-- `ChannelScheduler::next_channel`; `none` is `-1`. -/
def nextChannel (channels : Channels) (numChannels : Nat) (now : Time) : Option Nat :=
  ((List.range numChannels).foldl
    (fun (b : BestChannel) i =>
      if (channels.get i).hasPending now then b.consider i (channels.get i).config.priority
      else b)
    {}).best

/-- One bit per channel with pending sends. -/
abbrev PendingMask := BitVec 8

/-- `1U << i` in a mask. -/
def maskBit (i : Nat) : PendingMask := BitVec.twoPow 8 i

/-- `ChannelScheduler::next_channel_fast`, with the mask it leaves. -/
def nextChannelFast (channels : Channels) (numChannels : Nat) (now : Time) (mask : PendingMask) :
    Option Nat × PendingMask :=
  if mask = 0 then (none, mask)
  else
    let (b, newMask) := (List.range (min numChannels 8)).foldl
      (fun (acc : BestChannel × PendingMask) i =>
        if mask.getLsbD i && (channels.get i).hasPending now then
          (acc.1.consider i (channels.get i).config.priority, acc.2 ||| maskBit i)
        else acc)
      ({}, 0)
    (b.best, newMask)

end Netudp
