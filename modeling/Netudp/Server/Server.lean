/-
The server (`src/server.cpp`).

A table of connection slots with a list of the active ones and a stack of the free ones,
a map from addresses to slots, and a map from the fingerprints of tokens to the address
each was first seen from.  A connection request is admitted into a free slot; a data
packet finds its slot by the id it carries or by its address; a DISCONNECT frame or a
timeout gives the slot back.

`netudp_server_update` is taken apart into the events it consists of: the clock, one
event for each packet it dispatches, and the rest of the call.  Which packets reach the
dispatch is up to the sockets, the rate limiter, the flood monitor and the simulator,
none of which changes what the dispatch does.  The worker threads share the active list
out among themselves and do with each connection what the single thread does.

Opening a token's private part, that is `xchacha_decrypt` under the server's private key
and `deserialize_private_token`, and the fingerprint of its bytes are parameters.

Left out: the callbacks, except for the one the timeout check makes, the groups and the
entities; a broadcast or a group send is a send for each member.
-/
import Netudp.Core.HashMap
import Netudp.Server.Slot

namespace Netudp

open Lib

variable {Key Ct : Type}

/-! ### Addresses as keys -/

instance : RawBytes Nat := ⟨leBytes 8⟩

instance : RawBytes Address :=
  ⟨fun a => a.data.toList ++ leBytes 2 a.port.toNat ++ [a.type, a.pad]⟩

/-- `address_data_len`, with 1 for IPv4 and 2 for IPv6. -/
def addressDataLen (a : Address) : Nat :=
  if a.type = 1 then 4 else if a.type = 2 then 16 else 0

theorem addressDataLen_le (a : Address) : addressDataLen a ≤ 16 := by
  rw [addressDataLen]
  split
  · decide
  · split
    · decide
    · decide

/-- `netudp_address_equal`. -/
def addressEqual (a b : Address) : Bool :=
  a.type = b.type && a.port = b.port &&
    a.data.toList.take (addressDataLen a) = b.data.toList.take (addressDataLen a)

/-! ### The state -/

/-- What the server does with a connect token. -/
structure TokenOps (Key : Type) where
  /-- `xchacha_decrypt` of nonce, associated data and ciphertext, then
  `deserialize_private_token`. -/
  openPrivate : Bytes → Bytes → Bytes → Option (PrivateConnectToken Key)
  /-- The first eight bytes of `compute_token_fingerprint`. -/
  fingerprint : Bytes → Nat

/-- `struct FingerprintValue`. -/
structure FingerprintValue where
  address : Address
  expireTime : Nat

/-- `struct netudp_server`.  The free slots are listed from the top of the stack. -/
structure Server (Key : Type) where
  connections : Nat → Connection Key
  activeSlots : List Nat
  freeSlots : List Nat
  slotToActive : Nat → Option Nat
  addressToSlot : FixedHashMap 4096 Address Nat
  fingerprintMap : FixedHashMap 2048 Nat FingerprintValue
  currentTime : Time
  /-- The `dt` of the update in progress. -/
  dt : Time
  pacingCurrentSlice : Nat

/-- What the server does that can be observed. -/
inductive ServerAction (Key Ct : Type) where
  /-- The request was admitted, and its token's keys put in force in the slot. -/
  | accepted (slot : Nat) (request : Bytes) (token : PrivateConnectToken Key)
  /-- The connection in the slot did something. -/
  | did (slot : Nat) (action : SendAction Key Ct)

namespace Server

/-- `netudp_server_start`. -/
def start (C : Primitives Key Ct) (cfg : ServerConfig) (time : Time) : Server Key where
  connections := fun _ => .idle C
  activeSlots := []
  freeSlots := List.range cfg.maxClients
  slotToActive := fun _ => none
  addressToSlot := .clear
  fingerprintMap := .clear
  currentTime := time
  dt := 0
  pacingCurrentSlice := 0

/-- `connections[slot]` assigned. -/
def setConnection (s : Server Key) (slot : Nat) (c : Connection Key) : Server Key :=
  { s with connections := Function.update s.connections slot c }

@[simp] theorem setConnection_self (s : Server Key) (slot : Nat) (c : Connection Key) :
    (s.setConnection slot c).connections slot = c :=
  Function.update_self _ _ _

theorem setConnection_of_ne (s : Server Key) {slot i : Nat} (h : i ≠ slot) (c : Connection Key) :
    (s.setConnection slot c).connections i = s.connections i :=
  Function.update_of_ne h _ _

/-! ### Slots -/

/-- `server_deactivate_slot`: the last of the active list takes the slot's place in it. -/
def deactivateSlot (s : Server Key) (slot : Nat) : Server Key :=
  match s.slotToActive slot with
  | none => s
  | some activePos =>
    let last := s.activeSlots.length - 1
    let (active, index) :=
      if activePos < last then
        let movedSlot := s.activeSlots.getD last 0
        (s.activeSlots.set activePos movedSlot,
          Function.update s.slotToActive movedSlot (some activePos))
      else (s.activeSlots, s.slotToActive)
    { s with
      activeSlots := active.take last
      slotToActive := Function.update index slot none
      freeSlots := slot :: s.freeSlots }

/-- What a DISCONNECT frame and a timeout do: `address_to_slot.remove`,
`server_deactivate_slot` and `reset`. -/
def release (C : Primitives Key Ct) (s : Server Key) (slot : Nat) : Server Key :=
  let s := { s with
    addressToSlot := (s.addressToSlot.remove fnv1a (s.connections slot).address).2 }
  let s := s.deactivateSlot slot
  s.setConnection slot ((s.connections slot).reset C)

/-! ### Connection requests -/

/-- The length of a connection request. -/
def requestLength : Nat := 1078

/-- The bytes of the token in a request: everything but the prefix byte. -/
def requestToken (packet : Bytes) : Bytes := packet.drop 1

/-- `expire_ts`. -/
def requestExpire (packet : Bytes) : Nat := leNat ((packet.drop 22).take 8)

/-- `encrypted_private`. -/
def requestPrivate (packet : Bytes) : Bytes := (packet.drop 54).take 1024

/-- The checks of `server_handle_connection_request` on the request itself, with the
token it opens to. -/
def openRequest (T : TokenOps Key) (cfg : ServerConfig) (now : Time) (packet : Bytes) :
    Option (PrivateConnectToken Key) :=
  if packet.length ≠ requestLength then none
  else if (packet.drop 1).take 13 ≠ versionInfo then none
  else if leNat ((packet.drop 14).take 8) ≠ cfg.protocolId then none
  else if requestExpire packet ≤ now.floor.toNat then none
  else T.openPrivate ((packet.drop 30).take 24) ((packet.drop 1).take 29) (requestPrivate packet)

/-- An active connection has the client id. -/
def clientIdInUse (cfg : ServerConfig) (s : Server Key) (clientId : Nat) : Bool :=
  (List.range cfg.maxClients).any fun i =>
    (s.connections i).active && (s.connections i).clientId == clientId

/-- The token was seen before, from another address. -/
def fingerprintRefuses (T : TokenOps Key) (s : Server Key) (from_ : Address) (packet : Bytes) :
    Bool :=
  match s.fingerprintMap.find fnv1a (T.fingerprint (requestPrivate packet)) with
  | none => false
  -- The same address may use the same token again (reconnect).
  | some existing => !addressEqual existing.address from_

/-- The request passes the checks up to the fingerprint entry. -/
def passesChecks (T : TokenOps Key) (cfg : ServerConfig) (s : Server Key) (from_ : Address)
    (packet : Bytes) : Option (PrivateConnectToken Key) :=
  match openRequest T cfg s.currentTime packet with
  | none => none
  | some token =>
    if s.clientIdInUse cfg token.clientId then none
    else if s.fingerprintRefuses T from_ packet then none
    else some token

/-- What `server_dispatch_packet` takes for a connection request. -/
def isRequest (packet : Bytes) : Bool :=
  (packet.headD 0).toNat % 16 = 0 && packet.length = requestLength

/-- The slot and the token of a packet that is admitted as a request. -/
def admits (T : TokenOps Key) (cfg : ServerConfig) (s : Server Key) (from_ : Address)
    (packet : Bytes) : Option (Nat × PrivateConnectToken Key) :=
  if isRequest packet then
    match s.passesChecks T cfg from_ packet, s.freeSlots with
    | some token, slot :: _ => some (slot, token)
    | _, _ => none
  else none

/-- The fingerprint entry, which is written whether or not a slot is free. -/
def rememberToken (T : TokenOps Key) (s : Server Key) (from_ : Address) (packet : Bytes) :
    Server Key :=
  { s with fingerprintMap := (s.fingerprintMap.insert fnv1a
      (T.fingerprint (requestPrivate packet)) ⟨from_, requestExpire packet⟩).2 }

/-- The slot taken from the free stack and put on the active list. -/
def activateSlot (s : Server Key) (from_ : Address) (slot : Nat) : Server Key :=
  { s with
    freeSlots := s.freeSlots.tail
    addressToSlot := (s.addressToSlot.insert fnv1a from_ slot).2
    slotToActive := Function.update s.slotToActive slot (some s.activeSlots.length)
    activeSlots := s.activeSlots ++ [slot] }

/-- `server_handle_connection_request`. -/
def handleConnectionRequest (C : Primitives Key Ct) (T : TokenOps Key) (cfg : ServerConfig)
    (s : Server Key) (from_ : Address) (packet : Bytes) :
    Server Key × List (ServerAction Key Ct) :=
  match s.passesChecks T cfg from_ packet with
  | none => (s, [])
  | some token =>
    let s := s.rememberToken T from_ packet
    match s.freeSlots with
    | [] => (s, [])
    | slot :: _ =>
      let (c, acts) := serverAccept C cfg s.currentTime slot (s.connections slot) from_ token
      ((s.activateSlot from_ slot).setConnection slot c,
        .accepted slot packet token :: acts.map (.did slot))

/-! ### Data packets -/

/-- The slot of a data packet of `ctLen` encrypted bytes: the one it names if that is the
sender's, and otherwise the one the sender's address is mapped to. -/
def findSlot (cfg : ServerConfig) (s : Server Key) (from_ : Address) (wireSlot ctLen : Nat) :
    Option Nat :=
  if 1 ≤ ctLen ∧ wireSlot < cfg.maxClients % u16Size ∧
      (s.connections wireSlot).active = true ∧
      addressEqual (s.connections wireSlot).address from_ = true then some wireSlot
  else s.addressToSlot.find fnv1a from_

/-- `server_handle_data_packet` on the slot. -/
def handleDataPacket (C : Primitives Key Ct) (cfg : ServerConfig) (s : Server Key) (slot : Nat)
    (packet : Packet Ct) : Server Key × List (ServerAction Key Ct) :=
  let before := s.connections slot
  let (c, disconnected) := serverHandleDataPacket C cfg.protocolId s.currentTime before packet
  let s := s.setConnection slot c
  (if disconnected then s.release C slot else s,
    (rekeyedTo before.keyEpoch c.keyEpoch).map (.did slot))

/-- The prefixes `server_dispatch_packet` takes for a data packet. -/
def isDataPrefix (prefixByte : UInt8) : Bool :=
  (4 ≤ prefixByte.toNat % 16 && prefixByte.toNat % 16 ≤ 6) || prefixByte = packetPrefixDataRekey

/-- The slot `server_dispatch_packet` hands the `len` bytes of the buffer to, if it takes
them for a data packet and finds one.  The slot id is read when at least one encrypted
byte follows it. -/
def dispatchSlot (cfg : ServerConfig) (s : Server Key) (from_ : Address) (data : Bytes)
    (len : Nat) : Option Nat :=
  if (data.headD 0).toNat % 16 = 0 ∧ len = requestLength then none
  else if isDataPrefix (data.headD 0) then
    s.findSlot cfg from_ (leNat ((data.drop 1).take 2)) (len - 3)
  else none

end Server

/-- A packet as the dispatch sees it: a request in bytes, or the slot id and the
encrypted part of any other. -/
inductive Incoming (Ct : Type) where
  | request (packet : Bytes)
  | data (wireSlot : Nat) (packet : Packet Ct)

namespace Server

/-- `server_dispatch_packet`, the flood monitor letting the packet through. -/
def dispatchPacket (C : Primitives Key Ct) (T : TokenOps Key) (cfg : ServerConfig)
    (s : Server Key) (from_ : Address) : Incoming Ct → Server Key × List (ServerAction Key Ct)
  | .request packet =>
    if isRequest packet then s.handleConnectionRequest C T cfg from_ packet else (s, [])
  | .data wireSlot packet =>
    if isDataPrefix packet.prefixByte then
      match s.findSlot cfg from_ wireSlot (C.ctLen packet.ct) with
      | none => (s, [])
      | some slot => s.handleDataPacket C cfg slot packet
    else (s, [])

/-! ### The rest of an update -/

/-- The timeout check from position `a` of the active list.  A release puts another slot
at that position, so either the list gets shorter or the position moves on. -/
def checkTimeouts (C : Primitives Key Ct) : Nat → Nat → Server Key → Server Key
  | 0, _, s => s
  | fuel + 1, a, s =>
    match s.activeSlots[a]? with
    | none => s
    | some slot =>
      if (s.connections slot).timedOut s.currentTime then
        checkTimeouts C fuel a (s.release C slot)
      else checkTimeouts C fuel (a + 1) s

/-- The same loop with its callback: the server it leaves, and the `client_index` and the
`reason` of each call of `on_disconnect`; `none` if it has not ended after `fuel` rounds. -/
def timeoutSweep (C : Primitives Key Ct) :
    Nat → Nat → Server Key → Option (Server Key × List (Nat × Int))
  | 0, a, s => if a < s.activeSlots.length then none else some (s, [])
  | fuel + 1, a, s =>
    match s.activeSlots[a]? with
    | none => some (s, [])
    | some slot =>
      if (s.connections slot).timedOut s.currentTime then
        (timeoutSweep C fuel a (s.release C slot)).map fun (after, calls) =>
          (after, (slot, -4) :: calls)
      else timeoutSweep C fuel (a + 1) s

/-- The part of the active list an update visits: `slice_start` and `this_slice`. -/
def pacingSlice (pacingSlices activeCount currentSlice : Nat) : Nat × Nat :=
  if 1 < pacingSlices ∧ pacingSlices < activeCount then
    let perSlice := activeCount / pacingSlices
    let remainder := activeCount % pacingSlices
    let s := currentSlice % pacingSlices
    (s * perSlice + (if s < remainder then s else remainder),
      perSlice + (if s < remainder then 1 else 0))
  else (0, activeCount)

/-- `pacing_current_slice` after the update. -/
def nextSlice (pacingSlices activeCount currentSlice : Nat) : Nat :=
  if 1 < pacingSlices ∧ pacingSlices < activeCount then
    (currentSlice % pacingSlices + 1) % pacingSlices
  else currentSlice

/-- The part of the active list a worker thread visits: `start` and `end` in
`connection_worker_fn`. -/
def workerSlice (numWorkers activeCount workerId : Nat) : Nat × Nat :=
  let slice := (activeCount + numWorkers - 1) / numWorkers
  let start := workerId * slice
  (start, if activeCount < start + slice then activeCount else start + slice)

/-- The connections of the slots, one after another. -/
def processSlots (C : Primitives Key Ct) (cfg : ServerConfig) :
    Server Key → List Nat → Server Key × List (ServerAction Key Ct)
  | s, [] => (s, [])
  | s, slot :: rest =>
    let (c, acts) := serverUpdateConnection C cfg.protocolId s.currentTime s.dt
      (s.connections slot)
    let (s, more) := processSlots C cfg (s.setConnection slot c) rest
    (s, acts.map (.did slot) ++ more)

/-- `netudp_server_update` from the timeout check on. -/
def finishUpdate (C : Primitives Key Ct) (cfg : ServerConfig) (s : Server Key) :
    Server Key × List (ServerAction Key Ct) :=
  let s := checkTimeouts C s.activeSlots.length 0 s
  let (start, count) := pacingSlice cfg.pacingSlices s.activeSlots.length s.pacingCurrentSlice
  let (s', acts) := processSlots C cfg s ((s.activeSlots.drop start).take count)
  ({ s' with
    pacingCurrentSlice := nextSlice cfg.pacingSlices s.activeSlots.length s.pacingCurrentSlice },
    acts)

end Server

/-! ### Runs -/

/-- What happens to the server. -/
inductive ServerEvent (Ct : Type) where
  /-- `netudp_server_update` is called. -/
  | beginUpdate (time : Time)
  /-- It dispatches a packet. -/
  | dispatch (from_ : Address) (packet : Incoming Ct)
  /-- It goes on to the timeouts and the sends. -/
  | finishUpdate
  /-- `netudp_server_send`. -/
  | send (slot channel : Nat) (data : Bytes) (flags : SendFlags)
  /-- `netudp_server_send_state`. -/
  | sendState (slot channel entityId : Nat) (data : Bytes)
  /-- `netudp_server_flush`. -/
  | flush (slot : Nat)

/-- An API call on the connection of a slot in range. -/
def Server.onConnection (cfg : ServerConfig) (s : Server Key) (slot : Nat)
    (call : Connection Key → Connection Key × List (SendAction Key Ct)) :
    Server Key × List (ServerAction Key Ct) :=
  if cfg.maxClients ≤ slot then (s, [])
  else
    let (c, acts) := call (s.connections slot)
    (s.setConnection slot c, acts.map (.did slot))

/-- The server after the event, and what it did. -/
def serverStep (C : Primitives Key Ct) (T : TokenOps Key) (cfg : ServerConfig) (s : Server Key) :
    ServerEvent Ct → Server Key × List (ServerAction Key Ct)
  | .beginUpdate time => ({ s with dt := time - s.currentTime, currentTime := time }, [])
  | .dispatch from_ packet => s.dispatchPacket C T cfg from_ packet
  | .finishUpdate => s.finishUpdate C cfg
  | .send slot channel data flags =>
    s.onConnection cfg slot fun c =>
      (serverSend C cfg.protocolId s.currentTime c channel data flags).2
  | .sendState slot channel entityId data =>
    s.onConnection cfg slot fun c =>
      ((serverSendState s.currentTime c channel entityId data).2, [])
  | .flush slot => s.onConnection cfg slot (serverFlush C cfg.protocolId s.currentTime)

end Netudp
