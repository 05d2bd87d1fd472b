/-
The client's sends (`src/client.cpp`).

The client schedules over all its channels on every send and has no pending mask, and
its packets carry the slot id after the prefix.
-/
import Netudp.Client.Packet
import Netudp.Server.Send

namespace Netudp

variable {Key Ct : Type}

/-- The client's loop: the full scheduler, and a packet that never rekeys. -/
def clientPath (C : Primitives Key Ct) (pid : Nat) : SendPath Key Ct where
  next now c := (nextChannel c.cdata.channels c.numChannels now, c)
  sealPacket _ := clientSealData C pid
  ctLen := C.ctLen
  header := 3

/-- `client_send_pending`. -/
def clientSendPending (C : Primitives Key Ct) (pid : Nat) (now : Time) (c : Connection Key) :
    Connection Key × List (SendAction Key Ct) :=
  sendPending (clientPath C pid) now c

/-- Queue the message and start its channel's timer, which NO_DELAY flushes; `none` when
the queue refuses it. -/
def Connection.clientQueueMessage (c : Connection Key) (now : Time) (channel : Nat) (data : Bytes)
    (flags : SendFlags) : Option (Connection Key) :=
  match (c.ch channel).queueSend data flags with
  | (false, _) => none
  | (true, q) =>
    let c := c.setCh channel (q.startNagle now)
    some (if hasFlag flags sendNoDelay then c.setCh channel (c.ch channel).flush else c)

/-- `netudp_client_send` of a connected client. -/
def clientSend (C : Primitives Key Ct) (pid : Nat) (now : Time) (c : Connection Key)
    (channel : Nat) (data : Bytes) (flags : SendFlags) :
    SendResult × Connection Key × List (SendAction Key Ct) :=
  if c.numChannels ≤ channel then (.invalidParam, c, [])
  else
    match c.clientQueueMessage now channel data flags with
    | none => (.noBuffers, c, [])
    | some c =>
      if hasFlag flags sendNoDelay then (.ok, clientSendPending C pid now c) else (.ok, c, [])

/-- `netudp_client_flush` of a connected client. -/
def clientFlush (C : Primitives Key Ct) (pid : Nat) (now : Time) (c : Connection Key) :
    Connection Key × List (SendAction Key Ct) :=
  clientSendPending C pid now c.flushChannels

end Netudp
