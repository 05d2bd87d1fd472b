/-
The server's sends (`src/server.cpp`).

Per connection: queueing a message or a state update, flushing, the keepalive, and what
`netudp_server_update` does with a connection on each tick.  The checks on the server
handle and the client index belong to the server, not to the connection.  A worker thread
does the same, except that its slow tick leaves the statistics of an idle connection
alone.
-/
import Netudp.Connection.SendPending

namespace Netudp

variable {Key Ct : Type}

/-- The results of a send. -/
inductive SendResult where
  | ok
  | notConnected
  | invalidParam
  | noBuffers
deriving DecidableEq

/-- The server's loop: the fast scheduler, and a packet that may rekey. -/
def serverPath (C : Primitives Key Ct) (pid : Nat) : SendPath Key Ct where
  next now c :=
    let (next, mask) := nextChannelFast c.cdata.channels c.numChannels now c.pendingMask
    (next, { c with pendingMask := mask })
  sealPacket := serverSealData C pid
  ctLen := C.ctLen
  header := 1

/-- `server_send_pending`. -/
def serverSendPending (C : Primitives Key Ct) (pid : Nat) (now : Time) (c : Connection Key) :
    Connection Key × List (SendAction Key Ct) :=
  sendPending (serverPath C pid) now c

/-- A message has been queued on the channel: mark it pending and start its timer. -/
def Connection.markPending (c : Connection Key) (channel : Nat) (now : Time) : Connection Key :=
  let c := { c with pendingMask := c.pendingMask ||| maskBit channel }
  c.setCh channel ((c.ch channel).startNagle now)

theorem markPending_setCh (c : Connection Key) (channel : Nat) (q : Channel) (now : Time) :
    (c.setCh channel q).markPending channel now =
      { c.setCh channel (q.startNagle now) with
        pendingMask := c.pendingMask ||| maskBit channel } := by
  unfold Connection.markPending
  show Connection.setCh { c.setCh channel q with pendingMask := c.pendingMask ||| maskBit channel }
    channel (((c.setCh channel q).ch channel).startNagle now) = _
  rw [Connection.ch_setCh_self]
  unfold Connection.setCh
  simp only [Lib.Table.set_set]

theorem ch_markPending (c : Connection Key) (channel : Nat) (q : Channel) (now : Time) (i : Nat) :
    ((c.setCh channel q).markPending channel now).ch i
      = if i % 4 = channel % 4 then q.startNagle now else c.ch i := by
  rw [markPending_setCh]
  exact c.ch_setCh channel i (q.startNagle now)

/-- Queue the message and mark its channel, which NO_DELAY also flushes; `none` when the
queue refuses it. -/
def Connection.queueMessage (c : Connection Key) (now : Time) (channel : Nat) (data : Bytes)
    (flags : SendFlags) : Option (Connection Key) :=
  match (c.ch channel).queueSend data flags with
  | (false, _) => none
  | (true, q) =>
    let c := (c.setCh channel q).markPending channel now
    some (if hasFlag flags sendNoDelay then c.setCh channel (c.ch channel).flush else c)

/-- `netudp_server_send`. -/
def serverSend (C : Primitives Key Ct) (pid : Nat) (now : Time) (c : Connection Key)
    (channel : Nat) (data : Bytes) (flags : SendFlags) :
    SendResult × Connection Key × List (SendAction Key Ct) :=
  if !c.active then (.notConnected, c, [])
  else if c.numChannels ≤ channel then (.invalidParam, c, [])
  else
    match c.queueMessage now channel data flags with
    | none => (.noBuffers, c, [])
    | some c =>
      if hasFlag flags sendNoDelay then (.ok, serverSendPending C pid now c) else (.ok, c, [])

/-- `netudp_server_send_state`. -/
def serverSendState (now : Time) (c : Connection Key) (channel entityId : Nat) (data : Bytes) :
    SendResult × Connection Key :=
  if !c.active then (.notConnected, c)
  else if c.numChannels ≤ channel then (.invalidParam, c)
  else if (c.ch channel).config.type.isReliable then (.invalidParam, c)
  else
    match (c.ch channel).queueSendState data 0 entityId with
    | (false, _) => (.noBuffers, c)
    | (true, q) => (.ok, (c.setCh channel q).markPending channel now)

/-- Every channel of the connection flushed. -/
def Connection.flushChannels (c : Connection Key) : Connection Key :=
  (List.range c.numChannels).foldl (fun c i => c.setCh i (c.ch i).flush) c

/-- `netudp_server_flush`. -/
def serverFlush (C : Primitives Key Ct) (pid : Nat) (now : Time) (c : Connection Key) :
    Connection Key × List (SendAction Key Ct) :=
  if !c.active then (c, [])
  else serverSendPending C pid now c.flushChannels

/-- `server_send_keepalive`. -/
def serverSendKeepalive (C : Primitives Key Ct) (pid : Nat) (now : Time) (c : Connection Key) :
    Connection Key × List (SendAction Key Ct) :=
  let payload := writeAckFields (c.packetTracker.buildAckFields now)
  let c := { c with packetTracker := c.packetTracker.sendPacket now }
  match sealKeepalive C pid c.keyEpoch payload with
  | (none, e) => ({ c with keyEpoch := e }, [])
  | (some packet, e) =>
    ({ c with keyEpoch := e, lastSendTime := now, lastKeepaliveTime := now },
      [.emitted c.keyEpoch.txKey c.keyEpoch.txNonceCounter payload packet])

/-- What the connection may send is refilled, in the bucket and, at the rate of the
congestion control, in the budget. -/
def Connection.refill (c : Connection Key) (time dt : Time) : Connection Key :=
  { c with
    budget := c.budget.refill dt c.books.congestion.sendRate
    books := { c.books with bandwidth := c.books.bandwidth.refill time } }

/-- What is left to every tenth of a second: statistics, fragments that never became a
message, and the congestion control. -/
def Connection.slowTick (c : Connection Key) (time : Time) : Connection Key :=
  if c.books.nextSlowTick ≤ time then
    { c with
      cdata := { c.cdata with
        fragmentReassembler := c.cdata.fragmentReassembler.cleanupTimeout time }
      books := c.books.slowTick time }
  else c

theorem slowTick_eq (c : Connection Key) (time : Time) :
    c.slowTick time = { c with
      cdata := { c.cdata with
        fragmentReassembler := (c.slowTick time).cdata.fragmentReassembler }
      books := (c.slowTick time).books } := by
  unfold Connection.slowTick
  split
  · rfl
  · rfl

/-- What `netudp_server_update` does with one connection: the slow tick for an idle one,
and before it otherwise a refill, the pending sends and a keepalive when one is due. -/
def serverUpdateConnection (C : Primitives Key Ct) (pid : Nat) (time dt : Time)
    (c : Connection Key) : Connection Key × List (SendAction Key Ct) :=
  let needsKeepalive : Bool := 1 < time - c.lastSendTime
  if c.pendingMask = 0 ∧ needsKeepalive = false then (c.slowTick time, [])
  else
    let (c, sent) := serverSendPending C pid time (c.refill time dt)
    if needsKeepalive then
      let (c, keepalive) := serverSendKeepalive C pid time c
      (c.slowTick time, sent ++ keepalive)
    else (c.slowTick time, sent)

end Netudp
