/-
The life of one slot of the server (`src/server.cpp`).

A slot is idle until a connection request is accepted into it; it then sends, receives
and is updated until the client disconnects or times out, and is idle again.  Which
slot a request gets and which slot a packet is for is decided by the server; here is
what the slot then does.

Left out: the callbacks.
-/
import Netudp.Server.Receive
import Netudp.Server.Send

namespace Netudp

open Lib

variable {Key Ct : Type}

/-- `netudp_server_config_t`, and the number of slots the server was started with. -/
structure ServerConfig where
  protocolId : Nat
  maxClients : Nat
  channels : List ChannelConfig
  pacingSlices : Nat := 0

/-- `struct PrivateConnectToken`; the number of addresses is the length of the list. -/
structure PrivateConnectToken (Key : Type) where
  clientId : Nat
  timeoutSeconds : Nat
  clientToServerKey : Key
  serverToClientKey : Key
  serverAddresses : List Address
  userData : Vector UInt8 256

/-- The slot set up for the client, from `conn.active = true` to `init_subsystems`. -/
def Connection.establish (cfg : ServerConfig) (now : Time) (slot : Nat) (c : Connection Key)
    (from_ : Address) (token : PrivateConnectToken Key) : Connection Key :=
  let (cachedSa, cachedSaLen) := addressToSockaddr from_
  let c := { c with
    active := true
    address := from_
    books := { c.books with
      slotId := slot % u16Size
      cachedSa := cachedSa
      cachedSaLen := cachedSaLen
      userData := token.userData }
    clientId := token.clientId
    keyEpoch := { c.keyEpoch with
      txKey := token.serverToClientKey
      rxKey := token.clientToServerKey
      txNonceCounter := 0
      replay := .reset }
    timeoutSeconds := token.timeoutSeconds }
  c.initSubsystems cfg.channels now

/-- The keepalive that tells the client its slot. -/
def serverSendAccept (C : Primitives Key Ct) (cfg : ServerConfig) (now : Time) (slot : Nat)
    (c : Connection Key) : Connection Key × List (SendAction Key Ct) :=
  let payload := leBytes 2 slot ++ leBytes 4 cfg.maxClients ++
    writeAckFields (c.packetTracker.buildAckFields now)
  let c := { c with packetTracker := c.packetTracker.sendPacket now }
  match sealKeepalive C cfg.protocolId c.keyEpoch payload with
  | (none, e) => ({ c with keyEpoch := e }, [])
  | (some packet, e) =>
    ({ c with keyEpoch := e, lastSendTime := now, lastKeepaliveTime := now },
      [.emitted c.keyEpoch.txKey c.keyEpoch.txNonceCounter payload packet])

/-- The end of `server_handle_connection_request`, once the slot is chosen. -/
def serverAccept (C : Primitives Key Ct) (cfg : ServerConfig) (now : Time) (slot : Nat)
    (c : Connection Key) (from_ : Address) (token : PrivateConnectToken Key) :
    Connection Key × List (SendAction Key Ct) :=
  serverSendAccept C cfg now slot (c.establish cfg now slot from_ token)

/-- The timeout check of `netudp_server_update`. -/
def Connection.timedOut (c : Connection Key) (time : Time) : Bool :=
  c.timeoutSeconds < time - c.lastRecvTime

/-- What happens to a slot. -/
inductive SlotEvent (Key Ct : Type) where
  /-- A connection request is accepted into it. -/
  | accept (from_ : Address) (token : PrivateConnectToken Key)
  /-- `netudp_server_send`. -/
  | send (channel : Nat) (data : Bytes) (flags : SendFlags)
  /-- `netudp_server_send_state`. -/
  | sendState (channel entityId : Nat) (data : Bytes)
  /-- `netudp_server_flush`. -/
  | flush
  /-- `netudp_server_update` has received a packet for it. -/
  | packet (packet : Packet Ct)
  /-- The rest of `netudp_server_update`; with pacing not every update visits the slot. -/
  | update (dt : Time) (visited : Bool)

/-- The slot after the event at the time, and what it sent. -/
def slotStep (C : Primitives Key Ct) (cfg : ServerConfig) (slot : Nat) (c : Connection Key) :
    Time × SlotEvent Key Ct → Connection Key × List (SendAction Key Ct)
  | (now, .accept from_ token) =>
    if c.active then (c, []) else serverAccept C cfg now slot c from_ token
  | (now, .send channel data flags) => (serverSend C cfg.protocolId now c channel data flags).2
  | (now, .sendState channel entityId data) =>
    ((serverSendState now c channel entityId data).2, [])
  | (now, .flush) => serverFlush C cfg.protocolId now c
  | (now, .packet packet) =>
    if !c.active then (c, [])
    else
      match serverHandleDataPacket C cfg.protocolId now c packet with
      | (c, true) => (c.reset C, [])
      | (c, false) => (c, [])
  | (now, .update dt visited) =>
    if !c.active then (c, [])
    else if c.timedOut now then (c.reset C, [])
    else if visited then serverUpdateConnection C cfg.protocolId now dt c
    else (c, [])

end Netudp
