/-
Pipeline mode (`PipelineRecvQueue` and `netudp_server_update` of `src/server.cpp`).

One thread takes packets from the socket and pushes them on a ring; the update pops them
and hands each on.  A ring of 4096 cells holds 4095 packets, so that a full ring can be
told from an empty one.

A push and a pop are one step each, and so is a round of the loop that drains the ring;
pushes come between rounds.  The rest of an update, the packets a simulator lets go of and
the calls of the API are events of the server, between updates or after the loop.
-/
import Netudp.Connection.RateLimiter

namespace Netudp

open Lib

variable {Key Ct : Type}

/-! ### The queue -/

/-- `struct QueuedInPacket`. -/
structure QueuedInPacket (Ct : Type) where
  addr : Address
  packet : Incoming Ct

instance : Inhabited (QueuedInPacket Ct) := ⟨⟨{}, .request []⟩⟩

/-- `kPipelineQueueSize`. -/
def pipelineQueueSize : Nat := 4096

instance : NeZero pipelineQueueSize := ⟨by decide⟩

/-- `struct PipelineRecvQueue`. -/
structure PipelineRecvQueue (α : Type) where
  ring : Table pipelineQueueSize α
  /-- The producer writes here. -/
  head : Nat
  /-- The consumer reads here. -/
  tail : Nat
  head_lt : head < pipelineQueueSize
  tail_lt : tail < pipelineQueueSize

namespace PipelineRecvQueue

variable {α : Type}

/-- The queue as constructed. -/
def empty [Inhabited α] : PipelineRecvQueue α :=
  ⟨.fill default, 0, 0, by decide, by decide⟩

/-- `push`; `false` when the ring is full. -/
def push (q : PipelineRecvQueue α) (item : α) : Bool × PipelineRecvQueue α :=
  let next := (q.head + 1) % pipelineQueueSize
  if next = q.tail then (false, q)
  else
    (true, { q with
      ring := q.ring.set q.head item
      head := next
      head_lt := Nat.mod_lt _ (by decide) })

/-- `pop`; `none` when the ring is empty. -/
def pop (q : PipelineRecvQueue α) : Option α × PipelineRecvQueue α :=
  if q.tail = q.head then (none, q)
  else
    (some (q.ring.get q.tail), { q with
      tail := (q.tail + 1) % pipelineQueueSize
      tail_lt := Nat.mod_lt _ (by decide) })

/-- `count`. -/
def count (q : PipelineRecvQueue α) : Nat :=
  if q.tail ≤ q.head then q.head - q.tail else pipelineQueueSize - q.tail + q.head

end PipelineRecvQueue

/-! ### The drain loop -/

/-- The receiving side of the server. -/
structure Pipeline (Key Ct : Type) where
  server : Server Key
  rateLimiter : RateLimiter Time
  recvQueue : PipelineRecvQueue (QueuedInPacket Ct)
  /-- The `drained` of the loop, while an update is in it. -/
  drained : Option Nat

/-- What becomes of a packet in the body of the loop. -/
inductive HandedTo (Key Ct : Type) where
  /-- Rate-limited; `on_bad_packet` counts it. -/
  | badPackets
  /-- Submitted to the simulator. -/
  | simulator
  /-- Passed to `server_dispatch_packet`. -/
  | dispatch (acts : List (ServerAction Key Ct))

/-- What can be seen of the queue and the loop. -/
inductive PipelineAction (Key Ct : Type) where
  /-- `push` was called and returned `ok`. -/
  | pushed (packet : QueuedInPacket Ct) (ok : Bool)
  /-- `pop` returned a packet. -/
  | popped (packet : QueuedInPacket Ct)
  /-- The packet was handed on. -/
  | handed (packet : QueuedInPacket Ct) (how : HandedTo Key Ct)

namespace Pipeline

/-- The server after `netudp_server_start` in pipeline mode. -/
def start (C : Primitives Key Ct) (cfg : ServerConfig) (time : Time) : Pipeline Key Ct :=
  ⟨.start C cfg time, {}, .empty, none⟩

/-- Whether the packet gets past the rate limiter, which known peers do not meet. -/
def admits (p : Pipeline Key Ct) (addr : Address) : Bool × RateLimiter Time :=
  match p.server.addressToSlot.find fnv1a addr with
  | some _ => (true, p.rateLimiter)
  | none => p.rateLimiter.allow addr p.server.currentTime

/-- The body of the loop. -/
def handOn (C : Primitives Key Ct) (T : TokenOps Key) (cfg : ServerConfig) (simEnabled : Bool)
    (p : Pipeline Key Ct) (qpkt : QueuedInPacket Ct) : Pipeline Key Ct × HandedTo Key Ct :=
  let (allowed, rateLimiter) := p.admits qpkt.addr
  let p := { p with rateLimiter := rateLimiter }
  if allowed = false then (p, .badPackets)
  else if simEnabled then (p, .simulator)
  else
    let (server, acts) := p.server.dispatchPacket C T cfg qpkt.addr qpkt.packet
    ({ p with server := server }, .dispatch acts)

/-- A round of `while (pop(&qpkt) && drained < 4096)`: the packet is popped before the bound
is tested. -/
def drainRound (C : Primitives Key Ct) (T : TokenOps Key) (cfg : ServerConfig)
    (simEnabled : Bool) (p : Pipeline Key Ct) (drained : Nat) :
    Pipeline Key Ct × List (PipelineAction Key Ct) :=
  match p.recvQueue.pop with
  | (none, queue) => ({ p with recvQueue := queue, drained := none }, [])
  | (some qpkt, queue) =>
    if drained < 4096 then
      let (p, how) := handOn C T cfg simEnabled { p with recvQueue := queue } qpkt
      ({ p with drained := some (drained + 1) }, [.popped qpkt, .handed qpkt how])
    else ({ p with recvQueue := queue, drained := none }, [.popped qpkt])

end Pipeline

/-! ### Runs -/

/-- What happens in pipeline mode. -/
inductive PipelineEvent (Ct : Type) where
  /-- The receive thread pushes a packet. -/
  | push (packet : QueuedInPacket Ct)
  /-- `netudp_server_update` is called, and goes into the loop. -/
  | beginUpdate (time : Time)
  /-- A round of the loop. -/
  | drain
  /-- Anything else of the server. -/
  | server (ev : ServerEvent Ct)
  /-- The clean-up of the rate limiter. -/
  | cleanup

/-- The pipeline after the event, and what it did.  The thread that updates the server does
nothing else while it is in the loop. -/
def pipelineStep (C : Primitives Key Ct) (T : TokenOps Key) (cfg : ServerConfig)
    (simEnabled : Bool) (p : Pipeline Key Ct) :
    PipelineEvent Ct → Pipeline Key Ct × List (PipelineAction Key Ct)
  | .push packet =>
    let (ok, queue) := p.recvQueue.push packet
    ({ p with recvQueue := queue }, [.pushed packet ok])
  | .drain =>
    match p.drained with
    | none => (p, [])
    | some drained => p.drainRound C T cfg simEnabled drained
  | .beginUpdate time =>
    if p.drained.isSome then (p, [])
    else
      ({ p with
        server := (serverStep C T cfg p.server (.beginUpdate time)).1, drained := some 0 }, [])
  | .server ev =>
    if p.drained.isSome then (p, [])
    else ({ p with server := (serverStep C T cfg p.server ev).1 }, [])
  | .cleanup =>
    if p.drained.isSome then (p, [])
    else ({ p with rateLimiter := p.rateLimiter.cleanup p.server.currentTime }, [])

end Netudp
