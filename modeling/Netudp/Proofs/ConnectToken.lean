/-
What is written into a connect token is what is read from it.

Addresses first: the parser produces canonical ones, and of those the server's and the
client's decoder both read back what `write_address_to_token` wrote.  Then the private part,
whose fields lie at fixed offsets up to the addresses and behind them after that.  Then the
token as a whole, which the validator, the client and the request each take apart in their
own way.  Last, the list of servers as bytes of any origin: the two decoders agree on it
as long as every address in it is of a type they both know.
-/
import Netudp.Client.Client

namespace Netudp

open Lib

/-! ### Addresses -/

/-- An IPv4 or IPv6 address, its other bytes zero. -/
structure Address.Canonical (a : Address) : Prop where
  type : a.type = addressIpv4 ∨ a.type = addressIpv6
  data : padTo 16 0 (a.data.toList.take (addressDataLen a)) = a.data
  pad : a.pad = 0

theorem canonical_ipv4Address (octets : List Nat) (port : Nat) :
    (ipv4Address octets port).Canonical := by
  refine ⟨Or.inl rfl, ?_, rfl⟩
  have hfour : 4 ≤ 16 := by decide
  exact padTo_take (List.length_take_le 4 _) hfour

theorem canonical_ipv6Address (groups : List Nat) (port : Nat) :
    (ipv6Address groups port).Canonical := by
  refine ⟨Or.inr rfl, ?_, rfl⟩
  have hall : (ipv6Address groups port).data.toList.take 16 =
      (ipv6Address groups port).data.toList :=
    List.take_of_length_le (Nat.le_of_eq Vector.length_toList)
  show padTo 16 0 ((ipv6Address groups port).data.toList.take 16) = _
  rw [hall, padTo_toList]

theorem parseIpv6_canonical {text : Bytes} {a : Address} (h : parseIpv6 text = some a) :
    a.Canonical := by
  simp only [parseIpv6] at h
  split at h
  · simp only [Option.ite_none_left_eq_some, Option.bind_eq_bind, Option.bind_eq_some_iff,
      Option.pure_def, Option.some.injEq] at h
    obtain ⟨-, -, port, -, groups, -, rfl⟩ := h
    exact canonical_ipv6Address _ _
  · cases h

theorem parseIpv4_canonical {text : Bytes} {a : Address} (h : parseIpv4 text = some a) :
    a.Canonical := by
  simp only [parseIpv4, Option.ite_none_left_eq_some] at h
  obtain ⟨-, h⟩ := h
  split at h
  · cases h
  · rename_i port hport
    simp only [Option.ite_none_left_eq_some] at h
    obtain ⟨-, h⟩ := h
    split at h
    · obtain rfl := Option.some.inj h
      exact canonical_ipv4Address _ _
    · split at h
      · obtain rfl := Option.some.inj h
        exact canonical_ipv6Address _ _
      · split at h
        · cases h
        · simp only [Option.ite_none_left_eq_some, Option.some.injEq] at h
          obtain ⟨-, rfl⟩ := h
          exact canonical_ipv4Address _ _

/-- The parser clears what it does not fill in. -/
theorem parseAddress_canonical {str : Bytes} {a : Address} (h : parseAddress str = some a) :
    a.Canonical := by
  simp only [parseAddress] at h
  split at h
  · cases h
  · split at h
    · exact parseIpv6_canonical h
    · exact parseIpv4_canonical h

/-- The bytes of the address that its type has. -/
def Address.bytes (a : Address) : Bytes := a.data.toList.take (addressDataLen a)

theorem length_bytes (a : Address) : a.bytes.length = addressDataLen a := by
  rw [Address.bytes, List.length_take, Vector.length_toList]
  exact Nat.min_eq_left (addressDataLen_le a)

theorem writeAddressToToken_eq (a : Address) :
    writeAddressToToken a = a.type :: (a.bytes ++ leBytes 2 a.port.toNat) := by
  unfold writeAddressToToken Address.bytes addressDataLen addressIpv4 addressIpv6
  split
  · rfl
  · split
    · rw [List.take_of_length_le (Nat.le_of_eq Vector.length_toList)]
      rfl
    · rfl

theorem length_writeAddressToToken (a : Address) :
    (writeAddressToToken a).length = addressDataLen a + 3 := by
  rw [writeAddressToToken_eq, List.length_cons, List.length_append, length_bytes, length_leBytes]

theorem takeAddress_bytes {a : Address} (ha : a.Canonical) (rest : Bytes) :
    takeAddress a.type (addressDataLen a) (a.bytes ++ leBytes 2 a.port.toNat ++ rest) =
      (a, rest) := by
  have hfields : a.bytes ++ leBytes 2 a.port.toNat ++ rest =
      ([a.bytes] ++ leBytes 2 a.port.toNat :: [rest]).flatten := by
    simp
  have hdata : (a.bytes ++ leBytes 2 a.port.toNat ++ rest).take (addressDataLen a) = a.bytes := by
    rw [List.append_assoc, List.take_left' (length_bytes a)]
  have hport : readAt (a.bytes ++ leBytes 2 a.port.toNat ++ rest) (addressDataLen a) 2 =
      leBytes 2 a.port.toNat := by
    rw [hfields]
    exact readAt_field _ _ (by simp [length_bytes]) (length_leBytes _ _)
  have hrest : (a.bytes ++ leBytes 2 a.port.toNat ++ rest).drop (addressDataLen a + 2) = rest :=
    List.drop_left' (by rw [List.length_append, length_bytes, length_leBytes])
  have hnumber : UInt16.ofNat (leNat (leBytes 2 a.port.toNat)) = a.port := by
    rw [leNat_leBytes_of_lt a.port.toNat_lt, UInt16.ofNat_toNat]
  obtain ⟨-, hcanonical, hpad⟩ := ha
  rw [takeAddress, hdata, hport, hrest, hnumber, Address.bytes, hcanonical]
  cases a
  cases hpad
  rfl

theorem readAddress_write {a : Address} (ha : a.Canonical) (rest : Bytes) :
    readAddress (writeAddressToToken a ++ rest) = some (a, rest) := by
  have htake := takeAddress_bytes ha rest
  have hlength : (a.bytes ++ leBytes 2 a.port.toNat ++ rest).length =
      addressDataLen a + 2 + rest.length := by
    rw [List.length_append, List.length_append, length_bytes, length_leBytes]
  rw [writeAddressToToken_eq, List.cons_append, readAddress]
  rcases ha.type with htype | htype
  · have hlen : addressDataLen a = 4 := by
      rw [addressDataLen, htype]
      rfl
    rw [hlen] at htake hlength
    rw [if_pos htype, if_neg (by omega), htake]
  · have hlen : addressDataLen a = 16 := by
      rw [addressDataLen, htype]
      rfl
    rw [hlen] at htake hlength
    rw [if_neg (by rw [htype]; decide), if_pos htype, if_neg (by omega), htake]

theorem client_readAddress_write {a : Address} (ha : a.Canonical) (rest : Bytes) :
    Client.readAddress (writeAddressToToken a ++ rest) = (a, rest) := by
  rw [writeAddressToToken_eq]
  exact takeAddress_bytes ha rest

theorem readAddresses_write (rest : Bytes) :
    ∀ {addresses : List Address}, (∀ a ∈ addresses, a.Canonical) →
      readAddresses addresses.length (addresses.flatMap writeAddressToToken ++ rest) =
        some (addresses, rest) := by
  intro addresses hcanonical
  induction addresses with
  | nil => rfl
  | cons a addresses ih =>
    obtain ⟨ha, hothers⟩ := List.forall_mem_cons.mp hcanonical
    rw [List.length_cons, List.flatMap_cons, List.append_assoc, readAddresses,
      readAddress_write ha]
    simp only [Option.bind_eq_bind, Option.bind_some, ih hothers, Option.pure_def]

theorem client_readAddresses_write (rest : Bytes) :
    ∀ {addresses : List Address}, (∀ a ∈ addresses, a.Canonical) →
      Client.readAddresses addresses.length (addresses.flatMap writeAddressToToken ++ rest) =
        (addresses, rest) := by
  intro addresses hcanonical
  induction addresses with
  | nil => rfl
  | cons a addresses ih =>
    obtain ⟨ha, hothers⟩ := List.forall_mem_cons.mp hcanonical
    rw [List.length_cons, List.flatMap_cons, List.append_assoc, Client.readAddresses,
      client_readAddress_write ha]
    simp only [ih hothers]

theorem length_addresses_le (addresses : List Address) :
    (addresses.flatMap writeAddressToToken).length ≤ 19 * addresses.length := by
  induction addresses with
  | nil => exact Nat.le_refl _
  | cons a addresses ih =>
    have hlen := addressDataLen_le a
    rw [List.flatMap_cons, List.length_append, length_writeAddressToToken, List.length_cons]
    omega

/-! ### The private part -/

/-- What the fields of the private part have room for. -/
structure PrivateConnectToken.Fits (token : PrivateConnectToken KeyBytes) : Prop where
  clientId : token.clientId < u64Size
  timeoutSeconds : token.timeoutSeconds < u32Size
  some_address : 1 ≤ token.serverAddresses.length
  addresses_le : token.serverAddresses.length ≤ maxServersPerToken
  canonical : ∀ a ∈ token.serverAddresses, a.Canonical

theorem length_privateFields (token : PrivateConnectToken KeyBytes) :
    (privateFields token).flatten.length =
      16 + (token.serverAddresses.flatMap writeAddressToToken).length + 320 := by
  simp only [privateFields, List.flatten_cons, List.flatten_nil, List.length_append,
    length_leBytes, Vector.length_toList, List.length_nil]
  omega

/-- At most 32 addresses leave room for the rest. -/
theorem serializePrivateToken_eq {token : PrivateConnectToken KeyBytes} (h : token.Fits) :
    serializePrivateToken token =
      some (padTo tokenPrivateSize 0 (privateFields token).flatten).toList := by
  have haddresses := length_addresses_le token.serverAddresses
  have hnum := h.addresses_le
  have hlength := length_privateFields token
  rw [serializePrivateToken, if_neg]
  simp only [maxServersPerToken, tokenPrivateSize] at hnum ⊢
  omega

theorem deserializePrivateToken_serialize {token : PrivateConnectToken KeyBytes} (h : token.Fits)
    {buf : Bytes} (hbuf : serializePrivateToken token = some buf) :
    deserializePrivateToken buf = some token := by
  have hlength : (privateFields token).flatten.length ≤ tokenPrivateSize := by
    simp only [serializePrivateToken, Option.ite_none_left_eq_some] at hbuf
    omega
  rw [serializePrivateToken_eq h, Option.some.injEq, toList_padTo_flatten hlength] at hbuf
  have hsize : tokenPrivateSize ≤ buf.length := by
    rw [← hbuf, ← toList_padTo_flatten hlength, Vector.length_toList]
  generalize List.replicate _ _ = blank at hbuf
  have hclientId : readAt buf 0 8 = leBytes 8 token.clientId := by
    rw [← hbuf]
    exact readAt_field [] _ rfl (length_leBytes 8 _)
  have htimeout : readAt buf 8 4 = leBytes 4 token.timeoutSeconds := by
    rw [← hbuf]
    exact readAt_field [_] _ (by simp) (length_leBytes 4 _)
  have hnum : readAt buf 12 4 = leBytes 4 token.serverAddresses.length := by
    rw [← hbuf]
    exact readAt_field [_, _] _ (by simp) (length_leBytes 4 _)
  have hrest : buf.drop 16 = token.serverAddresses.flatMap writeAddressToToken ++
      [token.clientToServerKey.toList, token.serverToClientKey.toList, token.userData.toList,
        blank].flatten := by
    rw [← hbuf]
    exact drop_fields [_, _, _] _ (by simp)
  have hcount : leNat (leBytes 4 token.serverAddresses.length) =
      token.serverAddresses.length :=
    leNat_leBytes_of_lt (Nat.lt_of_le_of_lt h.addresses_le (by decide))
  have hsome : ¬ (token.serverAddresses.length = 0 ∨
      maxServersPerToken < token.serverAddresses.length) := by
    have := h.some_address
    have := h.addresses_le
    omega
  simp only [deserializePrivateToken, if_neg (Nat.not_lt.mpr hsize), hclientId, htimeout, hnum,
    hcount, if_neg hsome, hrest, readAddresses_write _ h.canonical, Option.bind_eq_bind,
    Option.bind_some, Option.pure_def, Option.some.injEq]
  have hkey : readAt [token.clientToServerKey.toList, token.serverToClientKey.toList,
      token.userData.toList, blank].flatten 0 32 = token.clientToServerKey.toList :=
    readAt_field [] _ rfl Vector.length_toList
  have hkey' : readAt [token.clientToServerKey.toList, token.serverToClientKey.toList,
      token.userData.toList, blank].flatten 32 32 = token.serverToClientKey.toList :=
    readAt_field [_] _ (by simp) Vector.length_toList
  have huserData : readAt [token.clientToServerKey.toList, token.serverToClientKey.toList,
      token.userData.toList, blank].flatten 64 256 = token.userData.toList :=
    readAt_field [_, _] _ (by simp) Vector.length_toList
  rw [hkey, hkey', huserData, padTo_toList, padTo_toList, padTo_toList,
    leNat_leBytes_of_lt h.clientId, leNat_leBytes_of_lt h.timeoutSeconds]

/-! ### The token -/

theorem parsed_canonical : ∀ {texts : List Bytes} {addresses : List Address},
    texts.mapM parseAddress = some addresses →
      addresses.length = texts.length ∧ ∀ a ∈ addresses, a.Canonical := by
  intro texts
  induction texts with
  | nil =>
    intro addresses h
    obtain rfl : [] = addresses := Option.some.inj h
    exact ⟨rfl, List.forall_mem_nil _⟩
  | cons text texts ih =>
    intro addresses h
    simp only [List.mapM_cons, Option.bind_eq_bind, Option.bind_eq_some_iff, Option.pure_def,
      Option.some.injEq] at h
    obtain ⟨a, ha, others, hothers, rfl⟩ := h
    obtain ⟨hlength, hcanonical⟩ := ih hothers
    refine ⟨by rw [List.length_cons, List.length_cons, hlength], ?_⟩
    exact List.forall_mem_cons.mpr ⟨parseAddress_canonical ha, hcanonical⟩

variable {X : XChaCha} {args : TokenArgs} {draw : TokenDraw} {token : Vector UInt8 2048}

theorem length_serialized {private_ : PrivateConnectToken KeyBytes} {buf : Bytes}
    (h : serializePrivateToken private_ = some buf) : buf.length = tokenPrivateSize := by
  simp only [serializePrivateToken, Option.ite_none_left_eq_some, Option.some.injEq] at h
  rw [← h.2, Vector.length_toList]

/-- What lies at the offsets of a token. -/
structure TokenReads (args : TokenArgs) (draw : TokenDraw) (addresses : List Address)
    (encrypted bytes : Bytes) : Prop where
  version : readAt bytes 0 13 = versionInfo
  protocolId : readAt bytes 13 8 = leBytes 8 args.protocolId.toNat
  expireTs : readAt bytes 29 8 = leBytes 8 (args.expireTs draw).toNat
  nonce : readAt bytes 37 24 = draw.nonce.toList
  encrypted : readAt bytes 61 1024 = encrypted
  timeoutSeconds : readAt bytes Client.tokenAfterPrivate 4 =
    leBytes 4 args.timeoutSeconds.toUInt32.toNat
  numAddresses : readAt bytes (Client.tokenAfterPrivate + 4) 4 = leBytes 4 addresses.length
  /-- The addresses, the keys and the blank end. -/
  rest : ∃ blank, bytes.drop (Client.tokenAfterPrivate + 8) =
    addresses.flatMap writeAddressToToken ++
      [draw.clientToServerKey.toList, draw.serverToClientKey.toList, blank].flatten

theorem tokenReads_padTo (args : TokenArgs) (draw : TokenDraw) {addresses : List Address}
    (hnum : addresses.length ≤ maxServersPerToken) {encrypted : Bytes}
    (hencrypted : encrypted.length = 1024) :
    TokenReads args draw addresses encrypted
      (padTo 2048 0 (args.fields draw addresses encrypted).flatten).toList := by
  have haddresses := length_addresses_le addresses
  have hversion : versionInfo.length = 13 := rfl
  have hroom : (args.fields draw addresses encrypted).flatten.length ≤ 2048 := by
    simp only [TokenArgs.fields, List.flatten_cons, List.flatten_nil, List.length_append,
      length_leBytes, Vector.length_toList, List.length_nil, hencrypted]
    simp only [maxServersPerToken] at hnum
    omega
  rw [toList_padTo_flatten hroom]
  generalize List.replicate _ _ = blank
  exact {
    version := readAt_field [] _ rfl rfl
    protocolId := readAt_field [_] _ (by simp [hversion]) (length_leBytes 8 _)
    expireTs := readAt_field [_, _, _] _ (by simp [hversion]) (length_leBytes 8 _)
    nonce := readAt_field [_, _, _, _] _ (by simp [hversion]) Vector.length_toList
    encrypted := readAt_field [_, _, _, _, _] _ (by simp [hversion]) hencrypted
    timeoutSeconds := readAt_field [_, _, _, _, _, _] _
      (by simp [hversion, hencrypted, Client.tokenAfterPrivate]) (length_leBytes 4 _)
    numAddresses := readAt_field [_, _, _, _, _, _, _] _
      (by simp [hversion, hencrypted, Client.tokenAfterPrivate]) (length_leBytes 4 _)
    rest := ⟨blank, drop_fields [_, _, _, _, _, _, _, _] _
      (by simp [hversion, hencrypted, Client.tokenAfterPrivate])⟩ }

theorem tokenReads_generated (hX : X.Correct) (h : generateConnectToken X args draw = .ok token) :
    ∃ addresses privateData, args.serverAddresses.mapM parseAddress = some addresses ∧
      (args.privateToken draw addresses).Fits ∧
      serializePrivateToken (args.privateToken draw addresses) = some privateData ∧
      TokenReads args draw addresses
        (X.lock args.privateKey draw.nonce.toList (args.aad draw) privateData) token.toList := by
  simp only [generateConnectToken] at h
  split at h
  · cases h
  · rename_i hnum
    split at h
    · cases h
    · rename_i addresses hparsed
      obtain ⟨hlength, hcanonical⟩ := parsed_canonical hparsed
      split at h
      · cases h
      · rename_i privateData hserialized
        have hle : addresses.length ≤ maxServersPerToken := by omega
        have hpos : 1 ≤ addresses.length := by omega
        have hfits : (args.privateToken draw addresses).Fits :=
          ⟨args.clientId.toNat_lt, args.timeoutSeconds.toUInt32.toNat_lt, hpos, hle, hcanonical⟩
        cases h
        refine ⟨addresses, privateData, hparsed, hfits, hserialized, ?_⟩
        refine tokenReads_padTo args draw hle ?_
        rw [hX.tag, length_serialized hserialized]
        rfl

/-- **The validator accepts what was generated**, as long as it has not expired, and opens it
to what was put in. -/
theorem validate_generated (hX : X.Correct) (h : generateConnectToken X args draw = .ok token)
    {now : Nat} (hnow : now < (args.expireTs draw).toNat) :
    ∃ addresses, args.serverAddresses.mapM parseAddress = some addresses ∧
      validateConnectToken X token args.protocolId.toNat args.privateKey now none =
        .ok (args.privateToken draw addresses) := by
  obtain ⟨addresses, privateData, hparsed, hfits, hserialized, hreads⟩ := tokenReads_generated hX h
  refine ⟨addresses, hparsed, ?_⟩
  have haad : versionInfo ++ leBytes 8 args.protocolId.toNat ++
      leBytes 8 (args.expireTs draw).toNat = args.aad draw := rfl
  have hopened : xchachaDecrypt X args.privateKey draw.nonce.toList (args.aad draw)
      (X.lock args.privateKey draw.nonce.toList (args.aad draw) privateData) =
        some privateData := by
    rw [xchachaDecrypt, if_neg (by rw [hX.tag]; omega), hX.inverts]
  have hprotocol : leNat (leBytes 8 args.protocolId.toNat) = args.protocolId.toNat :=
    leNat_leBytes_of_lt (w := 8) args.protocolId.toNat_lt
  have hexpire : leNat (leBytes 8 (args.expireTs draw).toNat) = (args.expireTs draw).toNat :=
    leNat_leBytes_of_lt (w := 8) (args.expireTs draw).toNat_lt
  simp only [validateConnectToken, hreads.version, hreads.protocolId, hreads.expireTs,
    hreads.nonce, hreads.encrypted, hprotocol, hexpire, ne_eq, not_true_eq_false, if_false,
    if_neg (Nat.not_le.mpr hnow), haad, hopened,
    deserializePrivateToken_serialize hfits hserialized]

/-- **The client reads what was generated.** -/
theorem connect_generated (hX : X.Correct) (h : generateConnectToken X args draw = .ok token)
    (cfg : ClientConfig) (c : Client) :
    (c.connect cfg token).state = .sendingRequest ∧
      (c.connect cfg token).connectToken = token ∧
      (c.connect cfg token).lastSendTime = 0 ∧
      args.serverAddresses.mapM parseAddress = some (c.connect cfg token).serverAddresses ∧
      (c.connect cfg token).conn.keyEpoch.txKey = draw.clientToServerKey ∧
      (c.connect cfg token).conn.keyEpoch.rxKey = draw.serverToClientKey := by
  obtain ⟨addresses, privateData, hparsed, hfits, -, hreads⟩ := tokenReads_generated hX h
  obtain ⟨blank, hrest⟩ := hreads.rest
  have hnum : leNat (leBytes 4 addresses.length) = addresses.length :=
    leNat_leBytes_of_lt (Nat.lt_of_le_of_lt hfits.addresses_le (by decide))
  have hsome : ¬ (addresses.length = 0 ∨ maxServersPerToken < addresses.length) := by
    have hpos : 1 ≤ addresses.length := hfits.some_address
    have hle : addresses.length ≤ maxServersPerToken := hfits.addresses_le
    omega
  have hkey : readAt [draw.clientToServerKey.toList, draw.serverToClientKey.toList, blank].flatten
      0 32 = draw.clientToServerKey.toList :=
    readAt_field [] _ rfl Vector.length_toList
  have hkey' : readAt [draw.clientToServerKey.toList, draw.serverToClientKey.toList, blank].flatten
      32 32 = draw.serverToClientKey.toList :=
    readAt_field [_] _ (by simp) Vector.length_toList
  have hdecoded : Client.readAddresses addresses.length (token.toList.drop
      (Client.tokenAfterPrivate + 8)) = (addresses,
        [draw.clientToServerKey.toList, draw.serverToClientKey.toList, blank].flatten) := by
    rw [hrest]
    exact client_readAddresses_write _ hfits.canonical
  simp only [Client.connect, hreads.numAddresses, hnum, if_neg hsome, hdecoded, hkey, hkey',
    padTo_toList]
  exact ⟨trivial, trivial, trivial, hparsed, rfl, rfl⟩

/-! ### A concrete token -/

/-- A cipher that encrypts nothing, with the sum of all bytes as its tag. -/
def toyXChaCha : XChaCha where
  lock key nonce aad pt := pt ++ toyTag key nonce aad pt
  unlock key nonce aad ct :=
    let pt := ct.take (ct.length - 16)
    if ct.drop (ct.length - 16) = toyTag key nonce aad pt then some pt else none
  blake2bKeyed _ data := padTo 64 0 (data.take 64)
where
  toyTag (key : KeyBytes) (nonce aad pt : Bytes) : Bytes :=
    leBytes 16 ((key.toList ++ nonce ++ aad ++ pt).foldl (fun sum b => sum + b.toNat) 0)

theorem toyXChaCha_correct : toyXChaCha.Correct where
  tag key nonce aad pt := by
    simp [toyXChaCha, toyXChaCha.toyTag]
  inverts key nonce aad pt := by
    have hlength : (pt ++ toyXChaCha.toyTag key nonce aad pt).length - 16 = pt.length := by
      simp [toyXChaCha.toyTag]
    simp only [toyXChaCha, hlength, List.take_left, List.drop_left, if_true]

/-- A token for client 5 of protocol 7, with two servers. -/
def toyArgs : TokenArgs where
  serverAddresses := [
    ['1', '0', '.', '0', '.', '0', '.', '1', ':', '4', '0', '0', '0'].map Char.toUInt8,
    ['[', ':', ':', '1', ']', ':', '4', '0', '0', '0'].map Char.toUInt8]
  expireSeconds := 30
  timeoutSeconds := 10
  clientId := 5
  protocolId := 7
  privateKey := .replicate 32 9
  userData := some (.replicate 256 3)

/-- Made at time 100. -/
def toyDraw : TokenDraw where
  createTs := 100
  clientToServerKey := .replicate 32 1
  serverToClientKey := .replicate 32 2
  nonce := .replicate 24 4

def toyConnectToken : Vector UInt8 2048 :=
  (generateConnectToken toyXChaCha toyArgs toyDraw).toOption.getD (.replicate 2048 0)

theorem toyConnectToken_generated :
    generateConnectToken toyXChaCha toyArgs toyDraw = .ok toyConnectToken := by
  have hok : (generateConnectToken toyXChaCha toyArgs toyDraw).toOption.isSome = true := by
    decide +kernel
  unfold toyConnectToken
  generalize generateConnectToken toyXChaCha toyArgs toyDraw = generated at hok ⊢
  cases generated with
  | ok token => rfl
  | error e => cases hok

theorem toyArgs_addresses :
    toyArgs.serverAddresses.mapM parseAddress =
      some [ipv4Address [10, 0, 0, 1] 4000, ipv6Address [0, 0, 0, 0, 0, 0, 0, 1] 4000] := by
  decide +kernel

/-! ### The two decoders of the list of servers -/

/-- The list of servers as `deserialize_private_token` decodes it, that is a count and the
addresses, and what follows it. -/
def decodeServers (buf : Bytes) : Option (List Address × Bytes) :=
  let num := leNat (readAt buf 0 4)
  if num = 0 ∨ maxServersPerToken < num then none else readAddresses num (buf.drop 4)

/-- The same as `netudp_client_connect` decodes it. -/
def Client.decodeServers (buf : Bytes) : Option (List Address × Bytes) :=
  let num := leNat (readAt buf 0 4)
  if num = 0 ∨ maxServersPerToken < num then none else some (Client.readAddresses num (buf.drop 4))

/-- The keys are read where the decoder stopped. -/
theorem deserializePrivateToken_eq {buf : Bytes} (h : tokenPrivateSize ≤ buf.length) :
    deserializePrivateToken buf = (decodeServers (buf.drop 12)).map fun (addresses, rest) =>
      { clientId := leNat (readAt buf 0 8)
        timeoutSeconds := leNat (readAt buf 8 4)
        serverAddresses := addresses
        clientToServerKey := padTo 32 0 (readAt rest 0 32)
        serverToClientKey := padTo 32 0 (readAt rest 32 32)
        userData := padTo 256 0 (readAt rest 64 256) } := by
  have hnum : readAt (buf.drop 12) 0 4 = readAt buf 12 4 := rfl
  simp only [deserializePrivateToken, decodeServers, if_neg (Nat.not_lt.mpr h), hnum,
    List.drop_drop]
  split
  · rfl
  · cases readAddresses (leNat (readAt buf 12 4)) (buf.drop 16) with
    | none => rfl
    | some decoded => rfl

/-- So are the client's. -/
theorem connect_decodes (cfg : ClientConfig) (c : Client) (token : Vector UInt8 2048) :
    match Client.decodeServers (token.toList.drop (Client.tokenAfterPrivate + 4)) with
    | none => (c.connect cfg token).state = .invalidToken
    | some (addresses, rest) =>
      (c.connect cfg token).serverAddresses = addresses ∧
        (c.connect cfg token).clientToServerKey = padTo 32 0 (readAt rest 0 32) ∧
        (c.connect cfg token).serverToClientKey = padTo 32 0 (readAt rest 32 32) := by
  have hnum : readAt (token.toList.drop (Client.tokenAfterPrivate + 4)) 0 4 =
      readAt token.toList (Client.tokenAfterPrivate + 4) 4 := rfl
  simp only [Client.decodeServers, hnum, List.drop_drop, Client.connect]
  split
  · rename_i hcount
    split at hcount
    · rename_i hbad
      rw [if_pos hbad]
    · cases hcount
  · rename_i addresses rest hcount
    split at hcount
    · cases hcount
    · rename_i hgood
      rw [if_neg hgood]
      rw [Option.some.injEq] at hcount
      simp only [hcount, and_self]

/-- The next address is of a type that both decoders know, and it is there as a whole. -/
def KnownAddress (buf : Bytes) : Prop :=
  (buf.headD 0 = addressIpv4 ∧ 7 ≤ buf.length) ∨ (buf.headD 0 = addressIpv6 ∧ 19 ≤ buf.length)
deriving Decidable

/-- The next so many are. -/
def KnownAddresses : Nat → Bytes → Prop
  | 0, _ => True
  | num + 1, buf => KnownAddress buf ∧ KnownAddresses num (Client.readAddress buf).2

instance instDecidableKnownAddresses : ∀ num buf, Decidable (KnownAddresses num buf)
  | 0, _ => isTrue trivial
  | num + 1, buf =>
    have := instDecidableKnownAddresses num (Client.readAddress buf).2
    inferInstanceAs (Decidable (_ ∧ _))

/-- What one decoder takes, the other takes for the same; the server's takes known addresses
only. -/
theorem readAddress_eq (buf : Bytes) :
    readAddress buf = if KnownAddress buf then some (Client.readAddress buf) else none := by
  cases buf with
  | nil => rfl
  | cons type rest =>
    simp only [readAddress, Client.readAddress, KnownAddress, List.headD_cons,
      List.length_cons, List.drop_one, List.tail_cons]
    by_cases hipv4 : type = addressIpv4
    · have hother : type ≠ addressIpv6 := by
        rw [hipv4]
        decide
      simp only [hipv4, if_true, true_and, hipv4 ▸ hother, false_and, or_false]
      by_cases hlong : 7 ≤ rest.length + 1
      · rw [if_neg (Nat.not_lt.mpr hlong), if_pos hlong]
      · rw [if_pos (Nat.not_le.mp hlong), if_neg hlong]
    · by_cases hipv6 : type = addressIpv6
      · simp only [hipv6, hipv6 ▸ hipv4, if_true, if_false, true_and, false_and, false_or]
        by_cases hlong : 19 ≤ rest.length + 1
        · rw [if_neg (Nat.not_lt.mpr hlong), if_pos hlong]
        · rw [if_pos (Nat.not_le.mp hlong), if_neg hlong]
      · simp [hipv4, hipv6]

theorem readAddresses_eq (num : Nat) : ∀ buf,
    readAddresses num buf =
      if KnownAddresses num buf then some (Client.readAddresses num buf) else none := by
  induction num with
  | zero => exact fun _ => rfl
  | succ num ih =>
    intro buf
    rw [readAddresses, readAddress_eq]
    by_cases hfirst : KnownAddress buf
    · by_cases hothers : KnownAddresses num (Client.readAddress buf).2
      · simp [hfirst, hothers, ih, KnownAddresses, Client.readAddresses]
      · simp [hfirst, hothers, ih, KnownAddresses]
    · simp [hfirst, KnownAddresses]

/-- **The two decoders agree exactly** on the counts that both refuse and on the lists of
addresses of known types. -/
theorem token_decoders_agree (buf : Bytes) :
    decodeServers buf = Client.decodeServers buf ↔
      leNat (readAt buf 0 4) = 0 ∨ maxServersPerToken < leNat (readAt buf 0 4) ∨
        KnownAddresses (leNat (readAt buf 0 4)) (buf.drop 4) := by
  simp only [decodeServers, Client.decodeServers, readAddresses_eq]
  rw [← or_assoc]
  by_cases hcount : leNat (readAt buf 0 4) = 0 ∨ maxServersPerToken < leNat (readAt buf 0 4)
  · simp [hcount]
  · by_cases hknown : KnownAddresses (leNat (readAt buf 0 4)) (buf.drop 4)
    · simp [hcount, hknown]
    · simp [hcount, hknown]

/-- An IPv4 and an IPv6 address, and two keys. -/
def knownServers : Bytes :=
  leBytes 4 2 ++ (addressIpv4 :: [10, 0, 0, 1, 160, 15]) ++
    (addressIpv6 :: List.replicate 14 0 ++ [1, 0, 160, 15]) ++ List.replicate 64 9

theorem known_servers_decoded :
    decodeServers knownServers = Client.decodeServers knownServers ∧
      decodeServers knownServers =
        some ([ipv4Address [10, 0, 0, 1] 4000, ipv6Address [0, 0, 0, 0, 0, 0, 0, 1] 4000],
          List.replicate 64 9) :=
  ⟨(token_decoders_agree knownServers).mpr (by decide), by decide +kernel⟩

/-- An address of type 0, and two keys. -/
def unknownServer : Bytes := leBytes 4 1 ++ [0, 160, 15] ++ List.replicate 64 9

/-- The server refuses it; for the client it is three bytes long. -/
theorem unknown_server_decoded_by_client :
    decodeServers unknownServer = none ∧
      Client.decodeServers unknownServer =
        some ([{ port := 4000, type := 0 }], List.replicate 64 9) := by
  decide +kernel

end Netudp
