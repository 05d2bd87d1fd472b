/-
The handshake: client and server agree on what the token says, and the server on what the
validator says.

The request a client sends holds the fields of its token apart from one, so the server's
checks on it are the validator's checks on the token; all but the last, that the token lists
the server.  What a generated token opens to is what it was generated from, on both sides.
-/
import Netudp.Proofs.ConnectToken
import Netudp.Proofs.NonceReuse
import Netudp.Proofs.ServerTables

namespace Netudp

open Lib

variable {Ct : Type} {C : Primitives KeyBytes Ct} {X : XChaCha} {privateKey : KeyBytes}
  {cfg : ServerConfig} {s : Server KeyBytes} {from_ : Address} {token : Vector UInt8 2048}

/-! ### The request -/

theorem length_tokenField {pos n : Nat} (h : pos + n ≤ 2048) :
    (readAt token.toList pos n).length = n :=
  length_readAt (by rw [Vector.length_toList]; exact h)

theorem connectionRequest_eq (token : Vector UInt8 2048) :
    Client.connectionRequest token =
      [[0], readAt token.toList 0 13, readAt token.toList 13 8, readAt token.toList 29 8,
        readAt token.toList 37 24, readAt token.toList 61 1024].flatten := by
  simp [Client.connectionRequest]

theorem length_connectionRequest (token : Vector UInt8 2048) :
    (Client.connectionRequest token).length = Server.requestLength := by
  simp [Client.connectionRequest, length_tokenField, Server.requestLength]

theorem isRequest_connectionRequest (token : Vector UInt8 2048) :
    Server.isRequest (Client.connectionRequest token) = true :=
  isRequest_of_length rfl (length_connectionRequest token)

/-- What lies at the offsets of a request is what lies at those of the token. -/
structure RequestReads (bytes packet : Bytes) : Prop where
  version : readAt packet 1 13 = readAt bytes 0 13
  protocolId : readAt packet 14 8 = readAt bytes 13 8
  expireTs : readAt packet 22 8 = readAt bytes 29 8
  nonce : readAt packet 30 24 = readAt bytes 37 24
  encrypted : readAt packet 54 1024 = readAt bytes 61 1024
  /-- The first three in one piece. -/
  aad : readAt packet 1 29 = readAt bytes 0 13 ++ readAt bytes 13 8 ++ readAt bytes 29 8

theorem requestReads (token : Vector UInt8 2048) :
    RequestReads token.toList (Client.connectionRequest token) := by
  rw [connectionRequest_eq]
  have haad : [[0], readAt token.toList 0 13, readAt token.toList 13 8, readAt token.toList 29 8,
      readAt token.toList 37 24, readAt token.toList 61 1024].flatten =
        [[0], readAt token.toList 0 13 ++ readAt token.toList 13 8 ++ readAt token.toList 29 8,
          readAt token.toList 37 24, readAt token.toList 61 1024].flatten := by
    simp
  exact {
    version := readAt_field [_] _ (by simp) (length_tokenField (by decide))
    protocolId := readAt_field [_, _] _ (by simp [length_tokenField])
      (length_tokenField (by decide))
    expireTs := readAt_field [_, _, _] _ (by simp [length_tokenField])
      (length_tokenField (by decide))
    nonce := readAt_field [_, _, _, _] _ (by simp [length_tokenField])
      (length_tokenField (by decide))
    encrypted := readAt_field [_, _, _, _, _] _ (by simp [length_tokenField])
      (length_tokenField (by decide))
    aad := by
      rw [haad]
      exact readAt_field [_] _ (by simp) (by simp [length_tokenField]) }

/-! ### The two lists of checks -/

theorem ite_error_eq_ok_iff {α : Type} {c : Prop} [Decidable c] {e : TokenError}
    {result : Except TokenError α} {out : α} :
    (if c then .error e else result) = .ok out ↔ ¬ c ∧ result = .ok out := by
  split
  · simp [*]
  · simp [*]

theorem validate_eq_ok_iff {pid now : Nat} {out : PrivateConnectToken KeyBytes} :
    validateConnectToken X token pid privateKey now none = .ok out ↔
      readAt token.toList 0 13 = versionInfo ∧ leNat (readAt token.toList 13 8) = pid ∧
        now < leNat (readAt token.toList 29 8) ∧
        (tokenOps X privateKey).openPrivate (readAt token.toList 37 24)
            (readAt token.toList 0 13 ++ readAt token.toList 13 8 ++ readAt token.toList 29 8)
            (readAt token.toList 61 1024) = some out := by
  simp only [validateConnectToken, ite_error_eq_ok_iff, ne_eq, not_not, not_le, tokenOps]
  refine and_congr_right fun _ => and_congr_right fun _ => and_congr_right fun _ => ?_
  cases xchachaDecrypt X privateKey _ _ _ with
  | none => simp
  | some decrypted =>
    simp only [Option.bind_some]
    cases deserializePrivateToken decrypted with
    | none => simp
    | some opened => simp

theorem validate_address {pid now : Nat} {out : PrivateConnectToken KeyBytes}
    (h : validateConnectToken X token pid privateKey now none = .ok out) (address : Address) :
    validateConnectToken X token pid privateKey now (some address) =
      if out.serverAddresses.any (addressEqual address) then .ok out
      else .error .invalidParam := by
  obtain ⟨hversion, hprotocol, hexpire, hprivate⟩ := validate_eq_ok_iff.mp h
  obtain ⟨decrypted, hdecrypted, hopened⟩ := Option.bind_eq_some_iff.mp hprivate
  simp only [validateConnectToken, if_neg (not_not_intro hversion),
    if_neg (not_not_intro hprotocol), if_neg (Nat.not_le.mpr hexpire), hdecrypted, hopened]

/-- **The server's checks on a request are the validator's on the token**, without the
server's address. -/
theorem openRequest_eq_some_iff_validate {now : Time} {out : PrivateConnectToken KeyBytes} :
    Server.openRequest (tokenOps X privateKey) cfg now (Client.connectionRequest token) =
        some out ↔
      validateConnectToken X token cfg.protocolId privateKey now.floor.toNat none = .ok out := by
  obtain ⟨hversion, hprotocol, hexpire, hnonce, hencrypted, haad⟩ := requestReads token
  rw [openRequest_eq_some_iff, validate_eq_ok_iff, hversion, hprotocol, hexpire, hnonce,
    hencrypted, haad]
  simp [length_connectionRequest]

/-! ### The server -/

/-- A request is accepted into the slot on top of the free ones, with the token it opens to. -/
theorem accepted_iff {Key : Type} {C : Primitives Key Ct} {T : TokenOps Key} {s : Server Key}
    {packet request : Bytes} {slot : Nat} {opened : PrivateConnectToken Key}
    (hrequest : Server.isRequest request = true) :
    .accepted slot packet opened ∈
        (serverStep C T cfg s (.dispatch from_ (.request request))).2 ↔
      packet = request ∧ s.passesChecks T cfg from_ request = some opened ∧
        s.freeSlots.head? = some slot := by
  simp only [serverStep, Server.dispatchPacket, if_pos hrequest, Server.handleConnectionRequest]
  cases s.passesChecks T cfg from_ request with
  | none => simp
  | some token =>
    have hstack : (s.rememberToken T from_ request).freeSlots = s.freeSlots := rfl
    simp only [hstack]
    cases s.freeSlots with
    | nil => simp
    | cons free rest =>
      simp only [List.mem_cons, List.mem_map, reduceCtorEq, and_false, exists_false, or_false,
        ServerAction.accepted.injEq, Option.some.injEq, List.head?_cons]
      constructor
      · rintro ⟨rfl, rfl, rfl⟩
        exact ⟨rfl, rfl, rfl⟩
      · rintro ⟨rfl, rfl, rfl⟩
        exact ⟨rfl, rfl, rfl⟩

/-- A server that has just been started remembers no token. -/
theorem fingerprintRefuses_start {Key : Type} {C : Primitives Key Ct} {T : TokenOps Key}
    {time : Time} {packet : Bytes} :
    (Server.start C cfg time).fingerprintRefuses T from_ packet = false := by
  rw [Server.fingerprintRefuses, Server.start, FixedHashMap.find_clear]

/-- **A client the server admits passes the validator exactly if its token lists the
server.** -/
theorem admitted_validates_iff {slot : Nat} {packet : Bytes}
    {opened : PrivateConnectToken KeyBytes} (bindAddress : Address)
    (h : .accepted slot packet opened ∈ (serverStep C (tokenOps X privateKey) cfg s
      (.dispatch from_ (.request (Client.connectionRequest token)))).2) :
    (∃ out, validateConnectToken X token cfg.protocolId privateKey s.currentTime.floor.toNat
        (some bindAddress) = .ok out) ↔
      ∃ listed ∈ opened.serverAddresses, addressEqual bindAddress listed = true := by
  obtain ⟨-, hpasses, -⟩ := (accepted_iff (isRequest_connectionRequest token)).mp h
  have hopened := (passesChecks_eq_some_iff.mp hpasses).1
  rw [validate_address (openRequest_eq_some_iff_validate.mp hopened), ← List.any_eq_true]
  split
  · rename_i hlisted
    exact ⟨fun _ => hlisted, fun _ => ⟨opened, rfl⟩⟩
  · rename_i hlisted
    exact ⟨fun ⟨out, hout⟩ => absurd hout (by simp), fun hany => absurd hany hlisted⟩

/-- The packets' cipher over the same keys. -/
def toyKeyCipher : Primitives KeyBytes (Sealed KeyBytes) :=
  symbolic (fun key _ => key) (.replicate 32 0)

/-- A server that has just been started. -/
def toyServer : Server KeyBytes := .start toyKeyCipher toyServerConfig 100

/-- It receives the request with the toy token. -/
def toyRequested : ServerEvent (Sealed KeyBytes) :=
  .dispatch toyAddress (.request (Client.connectionRequest toyConnectToken))

theorem toyServer_now : toyServer.currentTime.floor.toNat = 100 := rfl

theorem toyToken_unexpired :
    toyServer.currentTime.floor.toNat < (toyArgs.expireTs toyDraw).toNat := by
  decide

theorem toyClientId_unused :
    toyServer.clientIdInUse toyServerConfig toyArgs.clientId.toNat = false := by
  decide

theorem toyToken_validates :
    validateConnectToken toyXChaCha toyConnectToken toyServerConfig.protocolId
        toyArgs.privateKey toyServer.currentTime.floor.toNat none =
      .ok (toyArgs.privateToken toyDraw
        [ipv4Address [10, 0, 0, 1] 4000, ipv6Address [0, 0, 0, 0, 0, 0, 0, 1] 4000]) := by
  obtain ⟨addresses, haddresses, hvalid⟩ :=
    validate_generated toyXChaCha_correct toyConnectToken_generated toyToken_unexpired
  rw [toyArgs_addresses, Option.some.injEq] at haddresses
  rw [← haddresses] at hvalid
  exact hvalid

theorem toyToken_accepted :
    .accepted 0 (Client.connectionRequest toyConnectToken) (toyArgs.privateToken toyDraw
        [ipv4Address [10, 0, 0, 1] 4000, ipv6Address [0, 0, 0, 0, 0, 0, 0, 1] 4000]) ∈
      (serverStep toyKeyCipher (tokenOps toyXChaCha toyArgs.privateKey) toyServerConfig toyServer
        toyRequested).2 := by
  refine (accepted_iff (isRequest_connectionRequest toyConnectToken)).mpr ⟨rfl, ?_, rfl⟩
  refine passesChecks_eq_some_iff.mpr ⟨?_, toyClientId_unused, fingerprintRefuses_start⟩
  exact openRequest_eq_some_iff_validate.mpr toyToken_validates

/-- The token lists `toyAddress`, so a server there admits the client with the validator's
consent. -/
theorem listed_server_validates :
    (∃ slot packet opened, .accepted slot packet opened ∈
        (serverStep toyKeyCipher (tokenOps toyXChaCha toyArgs.privateKey) toyServerConfig toyServer
          toyRequested).2) ∧
      ∃ out, validateConnectToken toyXChaCha toyConnectToken toyServerConfig.protocolId
        toyArgs.privateKey 100 (some toyAddress) = .ok out := by
  have hvalid := (admitted_validates_iff toyAddress toyToken_accepted).mpr
    ⟨_, List.mem_cons_self, by decide⟩
  rw [toyServer_now] at hvalid
  exact ⟨⟨_, _, _, toyToken_accepted⟩, hvalid⟩

/-- A server at another port admits the client all the same, and the validator refuses. -/
theorem unlisted_server_admits :
    (∃ slot packet opened, .accepted slot packet opened ∈
        (serverStep toyKeyCipher (tokenOps toyXChaCha toyArgs.privateKey) toyServerConfig toyServer
          toyRequested).2) ∧
      validateConnectToken toyXChaCha toyConnectToken toyServerConfig.protocolId
        toyArgs.privateKey 100 (some { toyAddress with port := 4001 }) = .error .invalidParam := by
  refine ⟨⟨_, _, _, toyToken_accepted⟩, ?_⟩
  rw [← toyServer_now, validate_address toyToken_validates]
  decide

theorem connection_of_passes {Key : Type} {C : Primitives Key Ct} {T : TokenOps Key}
    {s : Server Key} {request : Bytes} {slot : Nat} {opened : PrivateConnectToken Key}
    (hrequest : Server.isRequest request = true)
    (hpasses : s.passesChecks T cfg from_ request = some opened)
    (hfree : s.freeSlots.head? = some slot) :
    let server := (serverStep C T cfg s (.dispatch from_ (.request request))).1
    slot ∈ server.activeSlots ∧ server.connections slot =
      (serverAccept C cfg s.currentTime slot (s.connections slot) from_ opened).1 := by
  obtain ⟨rest, hstack⟩ : ∃ rest, s.freeSlots = slot :: rest := List.head?_eq_some_iff.mp hfree
  have hremembered : (s.rememberToken T from_ request).freeSlots = slot :: rest := hstack
  simp only [serverStep, Server.dispatchPacket, if_pos hrequest, Server.handleConnectionRequest,
    hpasses, hremembered]
  exact ⟨List.mem_append_right _ (List.mem_singleton_self slot), Server.setConnection_self _ _ _⟩

theorem sealKeepalive_keys (C : Primitives KeyBytes Ct) (pid : Nat) (e : KeyEpoch KeyBytes)
    (payload : Bytes) :
    (sealKeepalive C pid e payload).2.txKey = e.txKey ∧
      (sealKeepalive C pid e payload).2.rxKey = e.rxKey := by
  simp only [sealKeepalive, packetEncrypt]
  cases C.encrypt e.txKey (buildNonce e.txNonceCounter) (buildAad pid prefixKeepalive) payload with
  | none => exact ⟨rfl, rfl⟩
  | some ct => exact ⟨rfl, rfl⟩

theorem serverAccept_token (C : Primitives KeyBytes Ct) (cfg : ServerConfig) (now : Time)
    (slot : Nat) (c : Connection KeyBytes) (from_ : Address)
    (opened : PrivateConnectToken KeyBytes) :
    let accepted := (serverAccept C cfg now slot c from_ opened).1
    accepted.keyEpoch.txKey = opened.serverToClientKey ∧
      accepted.keyEpoch.rxKey = opened.clientToServerKey ∧
      accepted.timeoutSeconds = opened.timeoutSeconds ∧
      accepted.books.userData = opened.userData := by
  obtain ⟨htx, hrx⟩ := sealKeepalive_keys C cfg.protocolId
    (c.establish cfg now slot from_ opened).keyEpoch
    (leBytes 2 slot ++ leBytes 4 cfg.maxClients ++ writeAckFields
      ((c.establish cfg now slot from_ opened).packetTracker.buildAckFields now))
  simp only [serverAccept, serverSendAccept]
  split
  · rename_i e hsealed
    rw [hsealed] at htx hrx
    exact ⟨htx, hrx, rfl, rfl⟩
  · rename_i packet e hsealed
    rw [hsealed] at htx hrx
    exact ⟨htx, hrx, rfl, rfl⟩

/-! ### The client -/

theorem request_mem_sendRequest {c : Client} {time : Time} {to_ : Option Address}
    {packet : Bytes} :
    .request to_ packet ∈ (c.sendRequest time : Client × List (ClientAction Ct)).2 ↔
      1 / 10 < time - c.lastSendTime ∧ to_ = c.socketPeer ∧
        packet = Client.connectionRequest c.connectToken := by
  unfold Client.sendRequest
  split
  · rename_i hdue
    simp only [List.mem_singleton, ClientAction.request.injEq, hdue, true_and]
  · rename_i hdue
    simp only [List.not_mem_nil, hdue, false_and]

/-- A connected client makes no request. -/
theorem request_notMem_updateConnected (clientCfg : ClientConfig) (c : Client) (time dt : Time)
    (to_ : Option Address) (packet : Bytes) :
    .request to_ packet ∉ (c.updateConnected C clientCfg time dt).2 := by
  simp [Client.updateConnected]

theorem request_mem_update {clientCfg : ClientConfig} {c : Client} {time : Time}
    {received : List (Packet Ct)} {to_ : Option Address} {packet : Bytes} :
    .request to_ packet ∈ (c.update C clientCfg time received).2 ↔
      c.state = .sendingRequest ∧ 1 / 10 < time - c.lastSendTime ∧ to_ = c.socketPeer ∧
        packet = Client.connectionRequest c.connectToken := by
  simp only [Client.update, List.mem_append]
  have hconnected : ∀ (c : Client) (dt : Time), .request to_ packet ∉
      (if c.state = .connected then c.updateConnected C clientCfg time dt else (c, [])).2 := by
    intro c dt
    split
    · exact request_notMem_updateConnected clientCfg c time dt to_ packet
    · exact List.not_mem_nil
  rw [or_iff_left (hconnected _ _)]
  split
  · rename_i hstate
    rw [request_mem_sendRequest, and_iff_right hstate]
  · rename_i hstate
    simp only [List.not_mem_nil, hstate, false_and]

/-! ### The two together -/

/-- **Client and server agree on what was generated.**  When the server receives, unexpired
and with a free slot, a request that the client has sent, from a client whose id is not in
use and whose token has not been used from elsewhere, then it makes a connection with the
client's keys the other way round and with the id, the timeout and the data of the token; and
the client has the server addresses of the token. -/
theorem handshake_agrees {args : TokenArgs} {draw : TokenDraw} (hX : X.Correct)
    (htoken : generateConnectToken X args draw = .ok token)
    (clientCfg : ClientConfig) (c : Client) (time : Time) (received : List (Packet Ct))
    {to_ : Option Address} {packet : Bytes}
    (hsent : .request to_ packet ∈
      ((c.connect clientCfg token).update C clientCfg time received).2)
    (hprotocol : cfg.protocolId = args.protocolId.toNat)
    (hunexpired : s.currentTime.floor.toNat < (args.expireTs draw).toNat)
    {slot : Nat} (hfree : s.freeSlots.head? = some slot)
    (hid : s.clientIdInUse cfg args.clientId.toNat = false)
    (hfingerprint : s.fingerprintRefuses (tokenOps X args.privateKey) from_ packet = false) :
    let client := c.connect clientCfg token
    let server := (serverStep C (tokenOps X args.privateKey) cfg s
      (.dispatch from_ (.request packet))).1
    let conn := server.connections slot
    packet.length = 1078 ∧
      slot ∈ server.activeSlots ∧ conn.active = true ∧ conn.address = from_ ∧
      conn.keyEpoch.txKey = client.conn.keyEpoch.rxKey ∧
      conn.keyEpoch.rxKey = client.conn.keyEpoch.txKey ∧
      conn.clientId = args.clientId.toNat ∧
      conn.timeoutSeconds = args.timeoutSeconds.toUInt32.toNat ∧
      conn.books.userData = args.userData.getD (.replicate 256 0) ∧
      args.serverAddresses.mapM parseAddress = some client.serverAddresses := by
  obtain ⟨-, hloaded, -, hdecoded, htx, hrx⟩ := connect_generated hX htoken clientCfg c
  obtain ⟨-, -, -, rfl⟩ := request_mem_update.mp hsent
  rw [hloaded] at hfingerprint ⊢
  obtain ⟨addresses, -, hvalid⟩ := validate_generated hX htoken hunexpired
  rw [← hprotocol] at hvalid
  have hpasses := passesChecks_eq_some_iff.mpr
    ⟨openRequest_eq_some_iff_validate.mpr hvalid, hid, hfingerprint⟩
  obtain ⟨hslot, hconn⟩ := connection_of_passes (C := C) (isRequest_connectionRequest token)
    hpasses hfree
  obtain ⟨hactive, haddress, hclient⟩ := serverAccept_peer C cfg s.currentTime slot
    (s.connections slot) from_ (args.privateToken draw addresses)
  obtain ⟨htx', hrx', htimeout, hdata⟩ := serverAccept_token C cfg s.currentTime slot
    (s.connections slot) from_ (args.privateToken draw addresses)
  rw [← hconn] at hactive haddress hclient htx' hrx' htimeout hdata
  exact ⟨length_connectionRequest token, hslot, hactive, haddress, htx'.trans hrx.symm,
    hrx'.trans htx.symm, hclient, htimeout, hdata, hdecoded⟩

/-- A client with the toy token. -/
def toyClient : Client := (Client.create toyKeyCipher 0).connect ⟨7, [{}]⟩ toyConnectToken

/-- The first client of a server. -/
theorem first_client_agrees :
    let conn := ((serverStep toyKeyCipher (tokenOps toyXChaCha toyArgs.privateKey)
      toyServerConfig toyServer toyRequested).1).connections 0
    conn.keyEpoch.txKey = toyClient.conn.keyEpoch.rxKey ∧
      conn.keyEpoch.rxKey = toyClient.conn.keyEpoch.txKey ∧
      conn.clientId = 5 ∧ conn.timeoutSeconds = 10 ∧ conn.books.userData = .replicate 256 3 := by
  obtain ⟨hstate, hloaded, hlast, -⟩ := connect_generated toyXChaCha_correct
    toyConnectToken_generated ⟨7, [{}]⟩ (Client.create toyKeyCipher 0)
  have hdue : 1 / 10 < 1 - toyClient.lastSendTime := by
    rw [toyClient, hlast]
    norm_num
  have hsent : .request toyClient.socketPeer (Client.connectionRequest toyConnectToken) ∈
      (toyClient.update toyKeyCipher ⟨7, [{}]⟩ 1 []).2 :=
    request_mem_update.mpr ⟨hstate, hdue, rfl, congrArg _ hloaded.symm⟩
  have hprotocol : toyServerConfig.protocolId = toyArgs.protocolId.toNat := rfl
  have hfree : toyServer.freeSlots.head? = some 0 := rfl
  obtain ⟨-, -, -, -, htx, hrx, hid, htimeout, hdata, -⟩ := handshake_agrees toyXChaCha_correct
    toyConnectToken_generated ⟨7, [{}]⟩ (Client.create toyKeyCipher 0) 1 [] hsent hprotocol
    toyToken_unexpired hfree toyClientId_unused fingerprintRefuses_start
  rw [toyRequested, toyClient]
  exact ⟨htx, hrx, hid, htimeout, hdata⟩

/-- The client asks again before it has heard of its acceptance: a slot is free and the token
has not expired, and no further connection is made. -/
theorem second_request_ignored :
    let server := (serverStep toyKeyCipher (tokenOps toyXChaCha toyArgs.privateKey)
      toyServerConfig toyServer toyRequested).1
    server.freeSlots = [1] ∧ server.currentTime.floor.toNat < (toyArgs.expireTs toyDraw).toNat ∧
      (serverStep toyKeyCipher (tokenOps toyXChaCha toyArgs.privateKey) toyServerConfig server
        toyRequested).1.activeSlots = server.activeSlots := by
  decide +kernel

end Netudp
