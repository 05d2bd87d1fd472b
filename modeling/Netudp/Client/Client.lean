/-
The client (`src/client.cpp`).

A client loads a token, sends the request it holds until the server answers or the timeout
has passed for every server the token lists, and is then connected until the server
disconnects it or falls silent.

`netudp_client_update` is one function here, of the time and of what the socket returns to
it; a packet it is given has a prefix and an encrypted part.  The socket is the address it
was last connected to.

Left out: `netudp_client_receive`, which hands over the delivered messages.
-/
import Netudp.Client.Receive
import Netudp.Client.Send
import Netudp.Connection.ConnectToken

namespace Netudp

open Lib

variable {Ct : Type}

/-- `enum class ClientState`. -/
inductive ClientState where
  | tokenExpired
  | invalidToken
  | connectionTimedOut
  | responseTimedOut
  | requestTimedOut
  | connectionDenied
  | disconnected
  | sendingRequest
  | sendingResponse
  | connected
deriving DecidableEq

/-- `netudp_client_config_t`. -/
structure ClientConfig where
  protocolId : Nat
  channels : List ChannelConfig

/-- `struct netudp_client`. -/
structure Client where
  state : ClientState
  connectToken : Vector UInt8 2048
  timeoutSeconds : Nat
  numServerAddresses : Nat
  serverAddresses : List Address
  currentServerIndex : Nat
  clientToServerKey : KeyBytes
  serverToClientKey : KeyBytes
  conn : Connection KeyBytes
  clientIndex : Int
  maxClients : Int
  serverSlotId : Nat
  connectStartTime : Time
  lastSendTime : Time
  currentTime : Time
  /-- What the socket is connected to. -/
  socketPeer : Option Address

/-- What the client does that can be observed. -/
inductive ClientAction (Ct : Type) where
  /-- A connection request went out. -/
  | request (to_ : Option Address) (packet : Bytes)
  /-- The connection did something. -/
  | did (action : SendAction KeyBytes Ct)

namespace Client

/-- `netudp_client_create`. -/
def create (C : Primitives KeyBytes Ct) (time : Time) : Client where
  state := .disconnected
  connectToken := .replicate 2048 0
  timeoutSeconds := 10
  numServerAddresses := 0
  serverAddresses := []
  currentServerIndex := 0
  clientToServerKey := .replicate 32 0
  serverToClientKey := .replicate 32 0
  conn := .idle C
  clientIndex := -1
  maxClients := 0
  serverSlotId := 0xFFFF
  connectStartTime := 0
  lastSendTime := 0
  currentTime := time
  socketPeer := none

/-! ### Loading a token -/

/-- `TOKEN_AFTER_PRIVATE`. -/
def tokenAfterPrivate : Nat := 1085

/-- One round of the loop over the server addresses.  An address of a type the client does
not know has no data. -/
def readAddress (buf : Bytes) : Address × Bytes :=
  let type := buf.headD 0
  takeAddress type (if type = addressIpv4 then 4 else if type = addressIpv6 then 16 else 0)
    (buf.drop 1)

/-- The loop over the server addresses. -/
def readAddresses : Nat → Bytes → List Address × Bytes
  | 0, buf => ([], buf)
  | num + 1, buf =>
    let (address, buf) := readAddress buf
    let (addresses, buf) := readAddresses num buf
    (address :: addresses, buf)

/-- `netudp_client_connect`. -/
def connect (cfg : ClientConfig) (c : Client) (token : Vector UInt8 2048) : Client :=
  let bytes := token.toList
  let num := leNat (readAt bytes (tokenAfterPrivate + 4) 4)
  let c := { c with
    connectToken := token
    timeoutSeconds := leNat (readAt bytes tokenAfterPrivate 4)
    numServerAddresses := num }
  if num = 0 ∨ maxServersPerToken < num then { c with state := .invalidToken }
  else
    let (addresses, rest) := readAddresses num (bytes.drop (tokenAfterPrivate + 8))
    let clientToServerKey := padTo 32 0 (readAt rest 0 32)
    let serverToClientKey := padTo 32 0 (readAt rest 32 32)
    let conn := { c.conn with
      keyEpoch := { c.conn.keyEpoch with
        txKey := clientToServerKey
        rxKey := serverToClientKey
        txNonceCounter := 0
        replay := .reset } }
    { c with
      serverAddresses := addresses
      clientToServerKey := clientToServerKey
      serverToClientKey := serverToClientKey
      conn := conn.initSubsystems cfg.channels c.currentTime
      currentServerIndex := 0
      state := .sendingRequest
      connectStartTime := c.currentTime
      lastSendTime := 0
      socketPeer := addresses[0]? }

/-! ### Requesting a connection -/

/-- The request `netudp_client_update` builds; `create_ts` is not sent. -/
def connectionRequest (token : Vector UInt8 2048) : Bytes :=
  let bytes := token.toList
  0 :: (readAt bytes 0 13 ++ readAt bytes 13 8 ++ readAt bytes 29 8 ++ readAt bytes 37 24 ++
    readAt bytes 61 1024)

/-- A request every tenth of a second. -/
def sendRequest (time : Time) (c : Client) : Client × List (ClientAction Ct) :=
  if 1 / 10 < time - c.lastSendTime then
    ({ c with lastSendTime := time }, [.request c.socketPeer (connectionRequest c.connectToken)])
  else (c, [])

/-- The next server's turn, or the end of the attempt.  The socket stays connected to the
address it was connected to. -/
def requestTimeout (time : Time) (c : Client) : Client :=
  if c.timeoutSeconds < time - c.connectStartTime then
    let c := { c with currentServerIndex := c.currentServerIndex + 1 }
    if c.numServerAddresses ≤ c.currentServerIndex then { c with state := .requestTimedOut }
    else { c with connectStartTime := time }
  else c

/-! ### Connected -/

/-- The keepalive of `netudp_client_update`. -/
def sendKeepalive (C : Primitives KeyBytes Ct) (pid : Nat) (time : Time)
    (c : Connection KeyBytes) : Connection KeyBytes × List (SendAction KeyBytes Ct) :=
  if 1 < time - c.lastSendTime then
    let payload := writeAckFields (c.packetTracker.buildAckFields time)
    let c := { c with packetTracker := c.packetTracker.sendPacket time }
    match sealKeepalive C pid c.keyEpoch payload with
    | (none, e) => ({ c with keyEpoch := e }, [])
    | (some packet, e) =>
      ({ c with keyEpoch := e, lastSendTime := time },
        [.emitted c.keyEpoch.txKey c.keyEpoch.txNonceCounter payload packet])
  else (c, [])

/-- Throughput, congestion control and stale fragments, on every update. -/
def housekeeping (time : Time) (c : Connection KeyBytes) : Connection KeyBytes :=
  { c with
    cdata := { c.cdata with
      fragmentReassembler := c.cdata.fragmentReassembler.cleanupTimeout time }
    books := { c.books with
      stats := c.books.stats.updateThroughput time
      congestion := c.books.congestion.evaluate } }

/-- The part of `netudp_client_update` for a connected client. -/
def updateConnected (C : Primitives KeyBytes Ct) (cfg : ClientConfig) (time dt : Time)
    (c : Client) : Client × List (ClientAction Ct) :=
  let (conn, sent) := clientSendPending C cfg.protocolId time
    (c.conn.refill time dt)
  let (conn, keepalive) := sendKeepalive C cfg.protocolId time conn
  let c := { c with conn := conn }
  (if c.timeoutSeconds < time - conn.lastRecvTime then { c with state := .connectionTimedOut }
    else { c with conn := housekeeping time conn },
    (sent ++ keepalive).map .did)

/-! ### Receiving -/

/-- A four-byte signed integer. -/
def leInt32 (bytes : Bytes) : Int := (UInt32.ofNat (leNat bytes)).toInt32.toInt

/-- The keepalive with which the server accepts: slot id, number of slots and
acknowledgement. -/
def receiveAccept (C : Primitives KeyBytes Ct) (cfg : ClientConfig) (time : Time) (c : Client)
    (packet : Packet Ct) : Client :=
  match clientOpenAccept C cfg.protocolId c.conn.keyEpoch packet with
  | (none, e) => { c with conn := { c.conn with keyEpoch := e } }
  | (some payload, e) =>
    let c := { c with conn := { c.conn with keyEpoch := e } }
    if payload.length < 14 then c
    else
      let slotId := leNat (readAt payload 0 2)
      { c with
        serverSlotId := slotId
        clientIndex := slotId
        maxClients := leInt32 (readAt payload 2 4)
        state := .connected
        conn := { c.conn with
          active := true
          lastRecvTime := time
          books := { c.conn.books with slotId := slotId } } }

/-- What `netudp_client_update` does with a packet, by the low four bits of its prefix. -/
def receivePacket (C : Primitives KeyBytes Ct) (cfg : ClientConfig) (time : Time) (c : Client)
    (packet : Packet Ct) : Client :=
  let packetType := packet.prefixByte.toNat % 16
  if packetType = 5 ∧ c.state = .sendingRequest then receiveAccept C cfg time c packet
  else if 4 ≤ packetType ∧ c.state = .connected then
    match clientHandleDataPacket C cfg.protocolId time c.conn packet with
    | (conn, false) => { c with conn := conn }
    | (conn, true) => { c with conn := conn, state := .disconnected }
  else c

/-- `netudp_client_update`, with what the socket returns to it; at most 64 packets are
received. -/
def update (C : Primitives KeyBytes Ct) (cfg : ClientConfig) (c : Client) (time : Time)
    (received : List (Packet Ct)) : Client × List (ClientAction Ct) :=
  let dt := time - c.currentTime
  let c := { c with currentTime := time }
  let (c, requests) : Client × List (ClientAction Ct) :=
    if c.state = .sendingRequest then
      let (c, requests) := c.sendRequest time
      (c.requestTimeout time, requests)
    else (c, [])
  let (c, actions) : Client × List (ClientAction Ct) :=
    if c.state = .connected then c.updateConnected C cfg time dt else (c, [])
  -- After a timeout the function has returned; a client in such a state takes no packet.
  ((received.take 64).foldl (fun c packet => c.receivePacket C cfg time packet) c,
    requests ++ actions)

/-- `netudp_client_disconnect`. -/
def disconnect (c : Client) : Client :=
  { c with state := .disconnected, clientIndex := -1, conn := { c.conn with active := false } }

end Client

end Netudp
