/-
The server under the flood monitor (`src/server.cpp`).

`netudp_server_update` evaluates the monitor with the time since the last call, and
`server_dispatch_packet` asks it about connection requests.  Bad packets are those the rate
limiter refuses, those that are of no known type or for no known peer, and those that do
not decrypt.

What the rate limiter refuses is up to it: a refusal is an event of its own, and so is the
dispatch of a packet that gets past it, at once or by way of the simulator.
-/
import Netudp.Connection.Ddos
import Netudp.Server.Server

namespace Netudp

open Lib

variable {Key Ct : Type}

/-- `server_handle_data_packet` gives the packet up because it does not decrypt. -/
def Server.decryptFails (C : Primitives Key Ct) (cfg : ServerConfig) (s : Server Key)
    (slot : Nat) (packet : Packet Ct) : Bool :=
  !(C.ctLen packet.ct < 1 : Bool) &&
    (serverOpenPacket C cfg.protocolId s.currentTime (s.connections slot).keyEpoch
      packet).1.isNone

/-- The server and its monitor. -/
structure GuardedServer (Key : Type) where
  server : Server Key
  ddos : DdosMonitor

namespace GuardedServer

/-- `ddos.on_bad_packet()`. -/
def badPacket (g : GuardedServer Key) : GuardedServer Key :=
  { g with ddos := g.ddos.onBadPacket }

/-- `server_dispatch_packet`. -/
def dispatchPacket (C : Primitives Key Ct) (T : TokenOps Key) (cfg : ServerConfig)
    (g : GuardedServer Key) (from_ : Address) :
    Incoming Ct → GuardedServer Key × List (ServerAction Key Ct)
  | .request packet =>
    if Server.isRequest packet then
      if g.ddos.shouldProcessNewConnection then
        let (s, acts) := g.server.handleConnectionRequest C T cfg from_ packet
        ({ g with server := s }, acts)
      else (g, [])
    else (g.badPacket, [])
  | .data wireSlot packet =>
    if Server.isDataPrefix packet.prefixByte then
      match g.server.findSlot cfg from_ wireSlot (C.ctLen packet.ct) with
      | none => (g.badPacket, [])
      | some slot =>
        let (s, acts) := g.server.handleDataPacket C cfg slot packet
        (if g.server.decryptFails C cfg slot packet then { g with server := s }.badPacket
          else { g with server := s }, acts)
    else (g.badPacket, [])

end GuardedServer

/-- What happens to the server. -/
inductive GuardedEvent (Ct : Type) where
  /-- The rate limiter refuses a packet. -/
  | refused
  /-- Anything else. -/
  | server (ev : ServerEvent Ct)

/-- The server and its monitor after the event, and what the server did. -/
def guardedStep (C : Primitives Key Ct) (T : TokenOps Key) (cfg : ServerConfig)
    (g : GuardedServer Key) : GuardedEvent Ct → GuardedServer Key × List (ServerAction Key Ct)
  | .refused => (g.badPacket, [])
  | .server (.beginUpdate time) =>
    ({ server := (serverStep C T cfg g.server (.beginUpdate time)).1
       ddos := g.ddos.update (time - g.server.currentTime) }, [])
  | .server (.dispatch from_ packet) => g.dispatchPacket C T cfg from_ packet
  | .server ev =>
    let (s, acts) := serverStep C T cfg g.server ev
    ({ g with server := s }, acts)

end Netudp
