/-
Connect tokens (`src/connection/connect_token.cpp`, `src/api.cpp`).

A token is made by a backend that shares a private key with the servers.  Its private part
is encrypted for the server and holds the client's id, its keys and its data; its public
part repeats the keys, the timeout and the server addresses for the client.  The same bytes
are read at offsets of their own by the server, from a request that leaves one field out,
by the client, and by `validate_connect_token`.

The cipher is XChaCha20-Poly1305, whose nonces are random and whose ciphertexts are bytes of
the token, so it is a parameter of its own next to the packets' `Primitives`.

The pointers an API function is given are not null.
-/
import Netudp.Connection.AddressText
import Netudp.Server.Server

namespace Netudp

open Lib

/-- A 32-byte key. -/
abbrev KeyBytes := Vector UInt8 32

deriving instance DecidableEq for PrivateConnectToken

/-- The results of the token functions other than `NETUDP_OK`. -/
inductive TokenError where
  | invalidParam
  | timeout
  | crypto
deriving DecidableEq

/-! ### The cipher (`src/crypto/xchacha.cpp`) -/

/-- What monocypher supplies. -/
structure XChaCha where
  /-- `crypto_aead_lock` of key, nonce, associated data and plaintext: the ciphertext, then
  the tag. -/
  lock : KeyBytes → Bytes → Bytes → Bytes → Bytes
  /-- `crypto_aead_unlock` of key, nonce, associated data and that. -/
  unlock : KeyBytes → Bytes → Bytes → Bytes → Option Bytes
  /-- `crypto_blake2b_keyed` with a 64-byte output. -/
  blake2bKeyed : KeyBytes → Bytes → Vector UInt8 64

/-- The tag has 16 bytes, and decryption inverts encryption. -/
structure XChaCha.Correct (X : XChaCha) : Prop where
  tag : ∀ key nonce aad pt, (X.lock key nonce aad pt).length = pt.length + 16
  inverts : ∀ key nonce aad pt, X.unlock key nonce aad (X.lock key nonce aad pt) = some pt

/-- `xchacha_decrypt`. -/
def xchachaDecrypt (X : XChaCha) (key : KeyBytes) (nonce aad ct : Bytes) : Option Bytes :=
  if ct.length < 16 then none else X.unlock key nonce aad ct

/-! ### Addresses in a token -/

/-- `write_address_to_token`. -/
def writeAddressToToken (a : Address) : Bytes :=
  a.type :: (if a.type = addressIpv4 then a.data.toList.take 4
    else if a.type = addressIpv6 then a.data.toList
    else []) ++ leBytes 2 a.port.toNat

/-- An address of the type, with so many bytes of data and a port at the front of `buf`, and
what follows it. -/
def takeAddress (type : UInt8) (len : Nat) (buf : Bytes) : Address × Bytes :=
  ({ data := padTo 16 0 (buf.take len)
     port := UInt16.ofNat (leNat (readAt buf len 2))
     type := type }, buf.drop (len + 2))

/-- `read_address` of the bytes that are available. -/
def readAddress : Bytes → Option (Address × Bytes)
  | [] => none
  | type :: rest =>
    if type = addressIpv4 then
      if rest.length + 1 < 7 then none else some (takeAddress type 4 rest)
    else if type = addressIpv6 then
      if rest.length + 1 < 19 then none else some (takeAddress type 16 rest)
    else none

/-- So many addresses, one after another. -/
def readAddresses : Nat → Bytes → Option (List Address × Bytes)
  | 0, buf => some ([], buf)
  | num + 1, buf => do
    let (address, buf) ← readAddress buf
    let (addresses, buf) ← readAddresses num buf
    return (address :: addresses, buf)

/-! ### The private part -/

/-- `TOKEN_PRIVATE_SIZE`. -/
def tokenPrivateSize : Nat := 1008

/-- `NETUDP_MAX_SERVERS_PER_TOKEN`. -/
def maxServersPerToken : Nat := 32

/-- The fields `serialize_private_token` writes. -/
def privateFields (token : PrivateConnectToken KeyBytes) : List Bytes :=
  [leBytes 8 token.clientId,
    leBytes 4 token.timeoutSeconds,
    leBytes 4 token.serverAddresses.length,
    token.serverAddresses.flatMap writeAddressToToken,
    token.clientToServerKey.toList,
    token.serverToClientKey.toList,
    token.userData.toList]

/-- `serialize_private_token` into a buffer of `TOKEN_PRIVATE_SIZE` bytes. -/
def serializePrivateToken (token : PrivateConnectToken KeyBytes) : Option Bytes :=
  let fields := (privateFields token).flatten
  if tokenPrivateSize < fields.length then none
  else some (padTo tokenPrivateSize 0 fields).toList

/-- `deserialize_private_token`. -/
def deserializePrivateToken (buf : Bytes) : Option (PrivateConnectToken KeyBytes) :=
  if buf.length < tokenPrivateSize then none
  else
    let num := leNat (readAt buf 12 4)
    if num = 0 ∨ maxServersPerToken < num then none
    else do
      let (addresses, rest) ← readAddresses num (buf.drop 16)
      return {
        clientId := leNat (readAt buf 0 8)
        timeoutSeconds := leNat (readAt buf 8 4)
        serverAddresses := addresses
        clientToServerKey := padTo 32 0 (readAt rest 0 32)
        serverToClientKey := padTo 32 0 (readAt rest 32 32)
        userData := padTo 256 0 (readAt rest 64 256) }

/-- What the server does with a token, under its private key. -/
def tokenOps (X : XChaCha) (privateKey : KeyBytes) : TokenOps KeyBytes where
  openPrivate nonce aad ct :=
    (xchachaDecrypt X privateKey nonce aad ct).bind deserializePrivateToken
  fingerprint encryptedPrivate :=
    leNat ((X.blake2bKeyed privateKey encryptedPrivate).toList.take 8)

/-! ### Making a token -/

/-- The arguments of `netudp_generate_connect_token`. -/
structure TokenArgs where
  serverAddresses : List Bytes
  expireSeconds : Int32
  timeoutSeconds : Int32
  clientId : UInt64
  protocolId : UInt64
  privateKey : KeyBytes
  userData : Option (Vector UInt8 256)

/-- What it takes from the clock and the random number generator. -/
structure TokenDraw where
  createTs : UInt64
  clientToServerKey : KeyBytes
  serverToClientKey : KeyBytes
  nonce : Vector UInt8 24

/-- `expire_ts`. -/
def TokenArgs.expireTs (args : TokenArgs) (draw : TokenDraw) : UInt64 :=
  draw.createTs + args.expireSeconds.toInt64.toUInt64

/-- The private part, once the addresses are parsed. -/
def TokenArgs.privateToken (args : TokenArgs) (draw : TokenDraw) (addresses : List Address) :
    PrivateConnectToken KeyBytes where
  clientId := args.clientId.toNat
  timeoutSeconds := args.timeoutSeconds.toUInt32.toNat
  clientToServerKey := draw.clientToServerKey
  serverToClientKey := draw.serverToClientKey
  serverAddresses := addresses
  userData := args.userData.getD (.replicate 256 0)

/-- The associated data: version, protocol id and `expire_ts`. -/
def TokenArgs.aad (args : TokenArgs) (draw : TokenDraw) : Bytes :=
  versionInfo ++ leBytes 8 args.protocolId.toNat ++ leBytes 8 (args.expireTs draw).toNat

/-- The fields of a token around the encrypted private part. -/
def TokenArgs.fields (args : TokenArgs) (draw : TokenDraw) (addresses : List Address)
    (encryptedPrivate : Bytes) : List Bytes :=
  [versionInfo,
    leBytes 8 args.protocolId.toNat,
    leBytes 8 draw.createTs.toNat,
    leBytes 8 (args.expireTs draw).toNat,
    draw.nonce.toList,
    encryptedPrivate,
    leBytes 4 args.timeoutSeconds.toUInt32.toNat,
    leBytes 4 addresses.length,
    addresses.flatMap writeAddressToToken,
    draw.clientToServerKey.toList,
    draw.serverToClientKey.toList]

/-- `netudp_generate_connect_token`. -/
def generateConnectToken (X : XChaCha) (args : TokenArgs) (draw : TokenDraw) :
    Except TokenError (Vector UInt8 2048) :=
  if args.serverAddresses.length < 1 ∨ maxServersPerToken < args.serverAddresses.length then
    .error .invalidParam
  else
    match args.serverAddresses.mapM parseAddress with
    | none => .error .invalidParam
    | some addresses =>
      match serializePrivateToken (args.privateToken draw addresses) with
      | none => .error .invalidParam
      | some privateData =>
        let encrypted := X.lock args.privateKey draw.nonce.toList (args.aad draw) privateData
        .ok (padTo 2048 0 (args.fields draw addresses encrypted).flatten)

/-! ### Validating one -/

/-- `validate_connect_token`; without a server address that check is left out. -/
def validateConnectToken (X : XChaCha) (token : Vector UInt8 2048) (protocolId : Nat)
    (privateKey : KeyBytes) (currentTime : Nat) (serverAddress : Option Address) :
    Except TokenError (PrivateConnectToken KeyBytes) :=
  let bytes := token.toList
  let version := readAt bytes 0 13
  let protocol := readAt bytes 13 8
  let expire := readAt bytes 29 8
  if version ≠ versionInfo then .error .invalidParam
  else if leNat protocol ≠ protocolId then .error .invalidParam
  else if leNat expire ≤ currentTime then .error .timeout
  else
    let aad := version ++ protocol ++ expire
    match xchachaDecrypt X privateKey (readAt bytes 37 24) aad (readAt bytes 61 1024) with
    | none => .error .crypto
    | some decrypted =>
      match deserializePrivateToken decrypted with
      | none => .error .invalidParam
      | some out =>
        match serverAddress with
        | none => .ok out
        | some address =>
          if out.serverAddresses.any (addressEqual address) then .ok out
          else .error .invalidParam

end Netudp
