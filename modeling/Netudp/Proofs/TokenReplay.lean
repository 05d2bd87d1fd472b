/-
One token, one address.

The server remembers for every token it lets through the address it came from, by a
fingerprint of the token's encrypted part, and refuses it from any other address.  What
is remembered is never forgotten: nothing takes an entry out of the map, and one is only
overwritten by an address that counts as the same.  But the map holds 2048 entries, and
whether an entry found room is not asked.
-/
import Netudp.Proofs.NonceReuse
import Netudp.Proofs.ServerTables

namespace Netudp

open Lib

variable {Key Ct : Type} {C : Primitives Key Ct} {T : TokenOps Key} {cfg : ServerConfig}

/-! ### Addresses that count as the same -/

theorem addressEqual_iff {a b : Address} :
    addressEqual a b = true ↔ a.type = b.type ∧ a.port = b.port ∧
      a.data.toList.take (addressDataLen a) = b.data.toList.take (addressDataLen a) := by
  simp [addressEqual, and_assoc]

theorem addressDataLen_congr {a b : Address} (h : a.type = b.type) :
    addressDataLen a = addressDataLen b := by
  rw [addressDataLen, addressDataLen, h]

theorem addressEqual_symm {a b : Address} (h : addressEqual a b = true) :
    addressEqual b a = true := by
  obtain ⟨htype, hport, hdata⟩ := addressEqual_iff.mp h
  refine addressEqual_iff.mpr ⟨htype.symm, hport.symm, ?_⟩
  rw [← addressDataLen_congr htype, hdata]

theorem addressEqual_trans {a b c : Address} (hab : addressEqual a b = true)
    (hbc : addressEqual b c = true) : addressEqual a c = true := by
  obtain ⟨htype, hport, hdata⟩ := addressEqual_iff.mp hab
  obtain ⟨htype', hport', hdata'⟩ := addressEqual_iff.mp hbc
  refine addressEqual_iff.mpr ⟨htype.trans htype', hport.trans hport', ?_⟩
  rw [hdata, addressDataLen_congr htype, hdata']

/-! ### Only a request touches the memory of tokens -/

/-- The server with another memory of tokens. -/
def Server.withFingerprints (s : Server Key) (m : FixedHashMap 2048 Nat FingerprintValue) :
    Server Key :=
  { s with fingerprintMap := m }

theorem withFingerprints_self (s : Server Key) : s.withFingerprints s.fingerprintMap = s := rfl

section Frame

variable (m : FixedHashMap 2048 Nat FingerprintValue)

theorem deactivateSlot_withFingerprints (s : Server Key) (slot : Nat) :
    (s.withFingerprints m).deactivateSlot slot = (s.deactivateSlot slot).withFingerprints m := by
  have hindex : (s.withFingerprints m).slotToActive = s.slotToActive := rfl
  rw [Server.deactivateSlot, Server.deactivateSlot, hindex]
  cases s.slotToActive slot with
  | none => rfl
  | some activePos => rfl

theorem release_withFingerprints (s : Server Key) (slot : Nat) :
    (s.withFingerprints m).release C slot = (s.release C slot).withFingerprints m := by
  let unmapped : Server Key := { s with
    addressToSlot := (s.addressToSlot.remove fnv1a (s.connections slot).address).2 }
  exact congrArg (fun s => s.setConnection slot ((s.connections slot).reset C))
    (deactivateSlot_withFingerprints m unmapped slot)

theorem checkTimeouts_withFingerprints (fuel : Nat) :
    ∀ (a : Nat) (s : Server Key),
      Server.checkTimeouts C fuel a (s.withFingerprints m) =
        (Server.checkTimeouts C fuel a s).withFingerprints m := by
  induction fuel with
  | zero => exact fun a s => rfl
  | succ fuel ih =>
    intro a s
    have hactive : (s.withFingerprints m).activeSlots = s.activeSlots := rfl
    rw [Server.checkTimeouts, Server.checkTimeouts, hactive]
    cases s.activeSlots[a]? with
    | none => rfl
    | some slot =>
      have htimed : ((s.withFingerprints m).connections slot).timedOut
          (s.withFingerprints m).currentTime =
        (s.connections slot).timedOut s.currentTime := rfl
      simp only [htimed, release_withFingerprints, ih]
      split
      · rfl
      · rfl

theorem processSlots_withFingerprints (slots : List Nat) :
    ∀ s : Server Key, (Server.processSlots C cfg (s.withFingerprints m) slots).1 =
      (Server.processSlots C cfg s slots).1.withFingerprints m := by
  induction slots with
  | nil => exact fun s => rfl
  | cons slot rest ih => exact fun s => ih (s.setConnection slot _)

theorem finishUpdate_withFingerprints (s : Server Key) :
    ((s.withFingerprints m).finishUpdate C cfg).1 =
      (s.finishUpdate C cfg).1.withFingerprints m := by
  have hchecked : Server.checkTimeouts C (s.withFingerprints m).activeSlots.length 0
      (s.withFingerprints m) =
        (Server.checkTimeouts C s.activeSlots.length 0 s).withFingerprints m :=
    checkTimeouts_withFingerprints m _ 0 s
  simp only [Server.finishUpdate, hchecked, processSlots_withFingerprints]
  rfl

theorem handleDataPacket_withFingerprints (s : Server Key) (slot : Nat) (packet : Packet Ct) :
    ((s.withFingerprints m).handleDataPacket C cfg slot packet).1 =
      (s.handleDataPacket C cfg slot packet).1.withFingerprints m := by
  have hconn : (s.withFingerprints m).connections = s.connections := rfl
  have htime : (s.withFingerprints m).currentTime = s.currentTime := rfl
  simp only [Server.handleDataPacket, hconn, htime]
  split
  · exact release_withFingerprints m (s.setConnection slot _) slot
  · rfl

theorem onConnection_withFingerprints (s : Server Key) (slot : Nat)
    (call : Connection Key → Connection Key × List (SendAction Key Ct)) :
    ((s.withFingerprints m).onConnection cfg slot call).1 =
      (s.onConnection cfg slot call).1.withFingerprints m := by
  simp only [Server.onConnection]
  split
  · rfl
  · rfl

/-- What is not a connection request neither reads nor changes the memory of tokens. -/
theorem serverStep_withFingerprints (s : Server Key) {ev : ServerEvent Ct}
    (hev : ∀ from_ packet, ev ≠ .dispatch from_ (.request packet)) :
    (serverStep C T cfg (s.withFingerprints m) ev).1 =
      (serverStep C T cfg s ev).1.withFingerprints m := by
  cases ev with
  | beginUpdate time => rfl
  | dispatch from_ packet =>
    cases packet with
    | request packet => exact absurd rfl (hev from_ packet)
    | data wireSlot packet =>
      have hfind : (s.withFingerprints m).findSlot cfg from_ wireSlot (C.ctLen packet.ct) =
          s.findSlot cfg from_ wireSlot (C.ctLen packet.ct) := rfl
      simp only [serverStep, Server.dispatchPacket, hfind]
      split
      · cases s.findSlot cfg from_ wireSlot (C.ctLen packet.ct) with
        | none => rfl
        | some slot => exact handleDataPacket_withFingerprints m s slot packet
      · rfl
  | finishUpdate => exact finishUpdate_withFingerprints m s
  | send slot channel data flags => exact onConnection_withFingerprints m s slot _
  | sendState slot channel entityId data => exact onConnection_withFingerprints m s slot _
  | flush slot => exact onConnection_withFingerprints m s slot _

theorem handleConnectionRequest_withFingerprints {s : Server Key} {from_ : Address}
    {packet : Bytes} {token : PrivateConnectToken Key}
    (h : s.passesChecks T cfg from_ packet = some token)
    (hm : (s.withFingerprints m).passesChecks T cfg from_ packet = some token) :
    ((s.withFingerprints m).handleConnectionRequest C T cfg from_ packet).1 =
      (s.handleConnectionRequest C T cfg from_ packet).1.withFingerprints
        ((s.withFingerprints m).rememberToken T from_ packet).fingerprintMap := by
  simp only [Server.handleConnectionRequest, h, hm]
  have hfree : ((s.withFingerprints m).rememberToken T from_ packet).freeSlots =
      (s.rememberToken T from_ packet).freeSlots := rfl
  rw [hfree]
  cases (s.rememberToken T from_ packet).freeSlots with
  | nil => rfl
  | cons slot rest => rfl

end Frame

/-! ### Runs with a log of the requests let through -/

/-- The address and the encrypted private data of a request that
`server_handle_connection_request` lets through to the slot allocation. -/
def acceptedRequest (T : TokenOps Key) (cfg : ServerConfig) (s : Server Key) :
    ServerEvent Ct → Option (Address × Bytes)
  | .dispatch from_ (.request packet) =>
    if Server.isRequest packet = true ∧ (s.passesChecks T cfg from_ packet).isSome = true then
      some (from_, Server.requestPrivate packet)
    else none
  | _ => none

/-- A server and the requests it has let through so far. -/
structure TokenRun (Key : Type) where
  server : Server Key
  log : List (Address × Bytes)

/-- The server has been started. -/
def TokenRun.start (C : Primitives Key Ct) (cfg : ServerConfig) (time : Time) : TokenRun Key :=
  ⟨.start C cfg time, []⟩

/-- A step of the server, logged. -/
def tokenRunStep (C : Primitives Key Ct) (T : TokenOps Key) (cfg : ServerConfig)
    (r : TokenRun Key) (ev : ServerEvent Ct) : TokenRun Key :=
  ⟨(serverStep C T cfg r.server ev).1, r.log ++ (acceptedRequest T cfg r.server ev).toList⟩

theorem tokenRunStep_server (r : TokenRun Key) (ev : ServerEvent Ct) :
    (tokenRunStep C T cfg r ev).server = (serverStep C T cfg r.server ev).1 := rfl

/-- A request that is let through finds its fingerprint in the map, or room for it. -/
def TokenHasRoom (T : TokenOps Key) (cfg : ServerConfig) (r : TokenRun Key)
    (ev : ServerEvent Ct) : Prop :=
  ∀ accepted ∈ acceptedRequest T cfg r.server ev,
    (r.server.fingerprintMap.find fnv1a (T.fingerprint accepted.2)).isSome = true ∨
      r.server.fingerprintMap.size < 2048
deriving Decidable

/-! ### One step -/

theorem fingerprintMap_of_not_accepted {s : Server Key} {ev : ServerEvent Ct}
    (h : acceptedRequest T cfg s ev = none) :
    (serverStep C T cfg s ev).1.fingerprintMap = s.fingerprintMap := by
  by_cases hev : ∃ from_ packet, ev = .dispatch from_ (.request packet)
  · obtain ⟨from_, packet, rfl⟩ := hev
    simp only [acceptedRequest, ite_eq_right_iff, reduceCtorEq, imp_false, not_and,
      Bool.not_eq_true, Option.isSome_eq_false_iff, Option.isNone_iff_eq_none] at h
    simp only [serverStep, Server.dispatchPacket]
    split
    · rename_i hrequest
      rw [Server.handleConnectionRequest, h hrequest]
    · rfl
  · have hframe : (serverStep C T cfg s ev).1 =
        (serverStep C T cfg s ev).1.withFingerprints s.fingerprintMap :=
      serverStep_withFingerprints s.fingerprintMap s
        fun from_ packet heq => hev ⟨from_, packet, heq⟩
    exact congrArg (fun s => s.fingerprintMap) hframe

/-- A request that is let through was not refused, and its entry is inserted. -/
theorem fingerprintMap_of_accepted {s : Server Key} {ev : ServerEvent Ct} {from_ : Address}
    {encryptedPrivate : Bytes} (h : acceptedRequest T cfg s ev = some (from_, encryptedPrivate)) :
    (∀ value, s.fingerprintMap.find fnv1a (T.fingerprint encryptedPrivate) = some value →
        addressEqual value.address from_ = true) ∧
      ∃ expireTime, (serverStep C T cfg s ev).1.fingerprintMap =
        (s.fingerprintMap.insert fnv1a (T.fingerprint encryptedPrivate) ⟨from_, expireTime⟩).2 := by
  cases ev with
  | dispatch from' incoming =>
    cases incoming with
    | data wireSlot packet => cases h
    | request packet =>
      simp only [acceptedRequest, Option.ite_none_right_eq_some, Option.some.injEq,
        Prod.mk.injEq] at h
      obtain ⟨⟨hrequest, hpasses⟩, rfl, rfl⟩ := h
      obtain ⟨token, hpass⟩ := Option.isSome_iff_exists.mp hpasses
      refine ⟨fun value hfind => ?_, Server.requestExpire packet, ?_⟩
      · have hnot := (passesChecks_eq_some_iff.mp hpass).2.2
        rw [Server.fingerprintRefuses, hfind, Bool.not_eq_false'] at hnot
        exact hnot
      · simp only [serverStep, Server.dispatchPacket, if_pos hrequest,
          Server.handleConnectionRequest, hpass]
        split
        · rfl
        · rfl
  | beginUpdate time => cases h
  | finishUpdate => cases h
  | send slot channel data flags => cases h
  | sendState slot channel entityId data => cases h
  | flush slot => cases h

/-! ### The whole run -/

/-- Every request let through is remembered, with an address that counts as its own. -/
def Remembers (T : TokenOps Key) (r : TokenRun Key) : Prop :=
  ∃ f : Bindings FingerprintValue, r.server.fingerprintMap.Represents fnv1a f ∧
    ∀ accepted ∈ r.log, ∃ value, f.lookup (rawBytes (T.fingerprint accepted.2)) = some value ∧
      addressEqual value.address accepted.1 = true

theorem remembers_step {r : TokenRun Key} {ev : ServerEvent Ct} (h : Remembers T r)
    (hroom : TokenHasRoom T cfg r ev) : Remembers T (tokenRunStep C T cfg r ev) := by
  obtain ⟨f, hf, hlog⟩ := h
  cases haccepted : acceptedRequest T cfg r.server ev with
  | none =>
    refine ⟨f, ?_, ?_⟩
    · rw [tokenRunStep, fingerprintMap_of_not_accepted haccepted]
      exact hf
    · rw [tokenRunStep, haccepted, Option.toList_none, List.append_nil]
      exact hlog
  | some accepted =>
    obtain ⟨from_, encryptedPrivate⟩ := accepted
    obtain ⟨hsame, expireTime, hmap⟩ := fingerprintMap_of_accepted (C := C) haccepted
    have hinserted : ((r.server.fingerprintMap.insert fnv1a (T.fingerprint encryptedPrivate)
        ⟨from_, expireTime⟩).2).Represents fnv1a
          (f.insert (rawBytes (T.fingerprint encryptedPrivate)) ⟨from_, expireTime⟩) := by
      by_cases hmem : rawBytes (T.fingerprint encryptedPrivate) ∈ f
      · exact (hf.insert_mem _ hmem).2
      · refine (hf.insert_new _ hmem ?_).2
        rcases hroom _ haccepted with hfound | hsize
        · rw [hf.find_eq, Finmap.lookup_eq_none.mpr hmem] at hfound
          cases hfound
        · rwa [← hf.size]
    refine ⟨_, by rw [tokenRunStep, hmap]; exact hinserted, ?_⟩
    intro accepted hmem
    rw [tokenRunStep, haccepted, Option.toList_some, List.mem_append, List.mem_singleton] at hmem
    by_cases hkey : rawBytes (T.fingerprint accepted.2) =
        rawBytes (T.fingerprint encryptedPrivate)
    · refine ⟨⟨from_, expireTime⟩, by rw [hkey, Finmap.lookup_insert], ?_⟩
      rcases hmem with hold | rfl
      · -- The entry that is overwritten has an address like both.
        obtain ⟨value, hvalue, haddress⟩ := hlog accepted hold
        refine addressEqual_trans (addressEqual_symm (hsame value ?_)) haddress
        rw [hf.find_eq, ← hkey, hvalue]
      · exact addressEqual_self from_
    · rw [Finmap.lookup_insert_of_ne _ hkey]
      rcases hmem with hold | rfl
      · exact hlog accepted hold
      · exact absurd rfl hkey

/-- **No token is let through from two addresses**, in a run in which each entry finds
room. -/
theorem token_from_one_address (time : Time) (es : List (ServerEvent Ct))
    (hroom : Along (tokenRunStep C T cfg) (TokenHasRoom T cfg) (.start C cfg time) es) :
    let log := (run (tokenRunStep C T cfg) (.start C cfg time) es).log
    ∀ first ∈ log, ∀ second ∈ log, first.2 = second.2 →
      addressEqual first.1 second.1 = true := by
  intro log first hfirst second hsecond hsame
  have hstart : Remembers T (TokenRun.start C cfg time) :=
    ⟨∅, FixedHashMap.represents_clear, List.forall_mem_nil _⟩
  obtain ⟨f, -, hlog⟩ := run_invariant (Remembers T)
    (fun r ev h hev => remembers_step h hev) hstart hroom
  obtain ⟨value, hvalue, haddress⟩ := hlog first hfirst
  obtain ⟨value', hvalue', haddress'⟩ := hlog second hsecond
  rw [hsame, hvalue'] at hvalue
  obtain rfl := Option.some.inj hvalue
  exact addressEqual_trans (addressEqual_symm haddress) haddress'

/-- A client that comes back from its address is let through again, and the same token from
another address is not. -/
theorem returning_client_let_through :
    let elsewhere : Address := { toyAddress with port := 4001 }
    let log := (run (tokenRunStep toyCipher toyTokens toyServerConfig)
      (.start toyCipher toyServerConfig 0)
      [.dispatch toyAddress (.request (toyRequest 0)),
        .beginUpdate 20,
        .finishUpdate,
        .dispatch elsewhere (.request (toyRequest 0)),
        .dispatch toyAddress (.request (toyRequest 0))]).log
    log.length = 2 ∧ ∀ first ∈ log, ∀ second ∈ log, first.2 = second.2 →
      addressEqual first.1 second.1 = true :=
  ⟨by decide +kernel, token_from_one_address 0 _ (by decide +kernel)⟩

/-! ### More tokens than the map holds -/

section Overflow

/-- Tokens told apart by their first eight encrypted bytes, which are client id and
fingerprint. -/
def serialTokens : TokenOps Nat where
  openPrivate _ _ ct := some ⟨leNat (ct.take 8), 10, 1, 2, [], .replicate 256 0⟩
  fingerprint ct := leNat (ct.take 8)

/-- A server with one slot. -/
def oneSlot : ServerConfig where
  protocolId := 7
  maxClients := 1
  channels := [{}]

/-- The encrypted private data of token `k`. -/
def serialPrivate (k : Nat) : Bytes := leBytes 8 k ++ List.replicate 1016 0

/-- What precedes it in a request: protocol 7, to expire at 1000. -/
def serialHeader : Bytes :=
  0 :: versionInfo ++ leBytes 8 7 ++ leBytes 8 1000 ++ List.replicate 24 0

/-- The request with token `k`. -/
def serialRequest (k : Nat) : Bytes := serialHeader ++ serialPrivate k

variable {k : Nat}

theorem length_serialPrivate (k : Nat) : (serialPrivate k).length = 1024 := by
  rw [serialPrivate, List.length_append, length_leBytes, List.length_replicate]

theorem length_serialRequest (k : Nat) : (serialRequest k).length = Server.requestLength := by
  rw [serialRequest, List.length_append, length_serialPrivate]
  rfl

theorem length_serialHeader : serialHeader.length = 54 := by decide

theorem header_field (k : Nat) {pos len : Nat} (h : pos + len ≤ 54) :
    readAt (serialRequest k) pos len = readAt serialHeader pos len :=
  readAt_append_left (by rw [length_serialHeader]; exact h)

theorem requestPrivate_serial (k : Nat) :
    Server.requestPrivate (serialRequest k) = serialPrivate k := by
  rw [Server.requestPrivate, serialRequest, List.drop_left' length_serialHeader,
    List.take_of_length_le (Nat.le_of_eq (length_serialPrivate k))]

theorem leNat_serialPrivate (hk : k < u64Size) : leNat ((serialPrivate k).take 8) = k := by
  rw [serialPrivate, List.take_left' (length_leBytes 8 k), leNat_leBytes_of_lt hk]

theorem openRequest_serial (hk : k < u64Size) {now : Time} (hnow : now.floor.toNat < 1000) :
    Server.openRequest serialTokens oneSlot now (serialRequest k) =
      some ⟨k, 10, 1, 2, [], .replicate 256 0⟩ := by
  have hversion : readAt (serialRequest k) 1 13 = versionInfo := by
    rw [header_field k (by decide)]
    decide
  have hprotocol : leNat (readAt (serialRequest k) 14 8) = oneSlot.protocolId := by
    rw [header_field k (by decide)]
    decide
  have hexpire : leNat (readAt (serialRequest k) 22 8) = 1000 := by
    rw [header_field k (by decide)]
    decide
  have hprivate : readAt (serialRequest k) 54 1024 = serialPrivate k := requestPrivate_serial k
  refine openRequest_eq_some_iff.mpr ⟨length_serialRequest k, hversion, hprotocol, ?_, ?_⟩
  · rw [hexpire]
    exact hnow
  · simp only [hprivate, serialTokens, leNat_serialPrivate hk]

/-- A server that does not know the token's fingerprint, and has no client with its id, lets
it through. -/
theorem passesChecks_serial {s : Server Nat} (hk : k < u64Size)
    (hnow : s.currentTime.floor.toNat < 1000) (hid : s.clientIdInUse oneSlot k = false)
    (hfind : s.fingerprintMap.find fnv1a k = none) (from_ : Address) :
    s.passesChecks serialTokens oneSlot from_ (serialRequest k) =
      some ⟨k, 10, 1, 2, [], .replicate 256 0⟩ := by
  refine passesChecks_eq_some_iff.mpr ⟨openRequest_serial hk hnow, hid, ?_⟩
  have hfingerprint : serialTokens.fingerprint (Server.requestPrivate (serialRequest k)) = k := by
    rw [requestPrivate_serial]
    exact leNat_serialPrivate hk
  rw [Server.fingerprintRefuses, hfingerprint, hfind]

/-- The event of the request with token `k`. -/
def serialEvent (from_ : Address) (k : Nat) : ServerEvent (Sealed Nat) :=
  .dispatch from_ (.request (serialRequest k))

theorem isRequest_serial (k : Nat) : Server.isRequest (serialRequest k) = true :=
  isRequest_of_length rfl (length_serialRequest k)

theorem acceptedRequest_serial {s : Server Nat} {from_ : Address} {token : PrivateConnectToken Nat}
    (h : s.passesChecks serialTokens oneSlot from_ (serialRequest k) = some token) :
    acceptedRequest serialTokens oneSlot s (serialEvent from_ k) = some (from_, serialPrivate k) := by
  rw [serialEvent, acceptedRequest, if_pos ⟨isRequest_serial k, by rw [h]; rfl⟩,
    requestPrivate_serial]

/-- The map holds the fingerprints below `n`. -/
def Filled (n : Nat) (m : FixedHashMap 2048 Nat FingerprintValue) : Prop :=
  ∃ f : Bindings FingerprintValue, m.Represents fnv1a f ∧
    f.keys = (Finset.range n).image (leBytes 8)

theorem fingerprint_inj (i : Nat) (hi : i < u64Size) (j : Nat) (hj : j < u64Size)
    (h : rawBytes (id i) = rawBytes (id j)) : i = j :=
  leBytes_inj (w := 8) hi hj h

theorem Filled.find_eq_none {n : Nat} {m : FixedHashMap 2048 Nat FingerprintValue}
    (h : Filled n m) (hn : n ≤ k) (hk : k < u64Size) : m.find fnv1a k = none :=
  FixedHashMap.FilledWith.find_eq_none fingerprint_inj h hn hk

theorem Filled.insert {n : Nat} {m : FixedHashMap 2048 Nat FingerprintValue} (h : Filled n m)
    (hn : n < 2048) (value : FingerprintValue) : Filled (n + 1) (m.insert fnv1a n value).2 := by
  have hu64 : 2048 < u64Size := by decide
  exact FixedHashMap.FilledWith.insert fingerprint_inj h hn (by omega) value

/-- No further one is. -/
theorem Filled.insert_full {m : FixedHashMap 2048 Nat FingerprintValue} (h : Filled 2048 m)
    (hn : 2048 ≤ k) (hk : k < u64Size) (value : FingerprintValue) :
    (m.insert fnv1a k value).2 = m :=
  congrArg Prod.snd
    (FixedHashMap.FilledWith.insert_full fingerprint_inj h hn hk value)

/-- The server after the first token, which gets the slot. -/
def occupied : Server Nat :=
  (serverStep toyCipher serialTokens oneSlot (.start toyCipher oneSlot 0)
    (serialEvent toyAddress 0)).1

theorem occupied_filled : Filled 1 occupied.fingerprintMap := by
  have hpasses : (Server.start toyCipher oneSlot 0).passesChecks serialTokens oneSlot toyAddress
      (serialRequest 0) = _ :=
    passesChecks_serial (by decide) (by decide) (by decide) (FixedHashMap.find_clear 0) _
  obtain ⟨-, expireTime, hmap⟩ := fingerprintMap_of_accepted (C := toyCipher)
    (acceptedRequest_serial hpasses)
  have hfingerprint : serialTokens.fingerprint (serialPrivate 0) = 0 :=
    leNat_serialPrivate (by decide)
  rw [hfingerprint] at hmap
  rw [occupied, hmap]
  exact Filled.insert ⟨∅, FixedHashMap.represents_clear, rfl⟩ (by decide) _

theorem mem_log_serial {s : Server Nat} {m : FixedHashMap 2048 Nat FingerprintValue}
    {r : TokenRun Nat} (hr : r.server = s.withFingerprints m) (hk : k < u64Size)
    (hnow : s.currentTime.floor.toNat < 1000) (hid : s.clientIdInUse oneSlot k = false)
    (hm : m.find fnv1a k = none) (from_ : Address) :
    (from_, serialPrivate k) ∈
      (tokenRunStep toyCipher serialTokens oneSlot r (serialEvent from_ k)).log := by
  have haccepted := acceptedRequest_serial
    (passesChecks_serial (s := s.withFingerprints m) hk hnow hid hm from_)
  rw [tokenRunStep, hr, haccepted]
  exact List.mem_append_right _ (List.mem_singleton_self _)

/-- A token that neither memory knows does the same with both, apart from the memory. -/
theorem serverStep_serial {s : Server Nat} {m : FixedHashMap 2048 Nat FingerprintValue}
    (hk : k < u64Size) (hnow : s.currentTime.floor.toNat < 1000)
    (hid : s.clientIdInUse oneSlot k = false) (hfind : s.fingerprintMap.find fnv1a k = none)
    (hm : m.find fnv1a k = none) (from_ : Address) :
    ∃ value, (serverStep toyCipher serialTokens oneSlot (s.withFingerprints m)
        (serialEvent from_ k)).1 =
      (serverStep toyCipher serialTokens oneSlot s (serialEvent from_ k)).1.withFingerprints
        (m.insert fnv1a k value).2 := by
  have hpasses := passesChecks_serial hk hnow hid hfind from_
  have hpasses' := passesChecks_serial (s := s.withFingerprints m) hk hnow hid hm from_
  have hfingerprint : serialTokens.fingerprint (Server.requestPrivate (serialRequest k)) = k := by
    rw [requestPrivate_serial]
    exact leNat_serialPrivate hk
  refine ⟨⟨from_, Server.requestExpire (serialRequest k)⟩, ?_⟩
  simp only [serialEvent, serverStep, Server.dispatchPacket, if_pos (isRequest_serial k)]
  rw [handleConnectionRequest_withFingerprints m hpasses hpasses', Server.rememberToken,
    hfingerprint]
  rfl

/-- Without a slot left, the memory is all that a token changes. -/
theorem serverStep_serial_no_slot {s : Server Nat} (hfree : s.freeSlots = [])
    {m : FixedHashMap 2048 Nat FingerprintValue} {from_ : Address} {token : PrivateConnectToken Nat}
    (h : s.passesChecks serialTokens oneSlot from_ (serialRequest k) = some token) :
    (serverStep toyCipher serialTokens oneSlot s (serialEvent from_ k)).1.withFingerprints m =
      s.withFingerprints m := by
  have hnone : (s.rememberToken serialTokens from_ (serialRequest k)).freeSlots = [] := hfree
  simp only [serialEvent, serverStep, Server.dispatchPacket, if_pos (isRequest_serial k),
    Server.handleConnectionRequest, h, hnone]
  rfl

/-- The requests with the tokens up to `n`. -/
def fillers : Nat → List (ServerEvent (Sealed Nat))
  | 0 => [serialEvent toyAddress 0]
  | n + 1 => fillers n ++ [serialEvent toyAddress (n + 1)]

/-- With the slot taken, tokens are let through and remembered, and get no slot. -/
theorem fillers_run (n : Nat) (hn : n ≤ 2047) :
    ∃ m, (run (tokenRunStep toyCipher serialTokens oneSlot) (.start toyCipher oneSlot 0)
      (fillers n)).server = occupied.withFingerprints m ∧ Filled (n + 1) m := by
  induction n with
  | zero =>
    refine ⟨occupied.fingerprintMap, ?_, occupied_filled⟩
    rw [withFingerprints_self, fillers, run_cons, run_nil, tokenRunStep, TokenRun.start, occupied]
  | succ n ih =>
    obtain ⟨m, hserver, hfilled⟩ := ih (by omega)
    have hu64 : 2048 < u64Size := by decide
    have htime : occupied.currentTime.floor.toNat < 1000 := by decide +kernel
    have hfree : occupied.freeSlots = [] := by decide +kernel
    have hid : occupied.clientIdInUse oneSlot (n + 1) = false := by
      have hclient : (occupied.connections 0).clientId = 0 := by decide +kernel
      simp [Server.clientIdInUse, oneSlot, hclient]
    have hfind : occupied.fingerprintMap.find fnv1a (n + 1) = none :=
      occupied_filled.find_eq_none (by omega) (by omega)
    have hm : m.find fnv1a (n + 1) = none :=
      hfilled.find_eq_none (Nat.le_refl _) (by omega)
    obtain ⟨value, hstep⟩ := serverStep_serial (by omega) htime hid hfind hm toyAddress
    refine ⟨_, ?_, hfilled.insert (by omega) value⟩
    rw [fillers, run_append, run_cons, run_nil, tokenRunStep, hserver, hstep]
    exact serverStep_serial_no_slot hfree
      (passesChecks_serial (by omega) htime hid hfind toyAddress)

theorem log_subset (es : List (ServerEvent Ct)) :
    ∀ r : TokenRun Key, r.log ⊆ (run (tokenRunStep C T cfg) r es).log := by
  induction es with
  | nil => exact fun r => List.Subset.refl _
  | cons ev es ih =>
    intro r accepted hmem
    exact ih (tokenRunStep C T cfg r ev) (List.mem_append_left _ hmem)

/-- An update at `time` in which nothing arrives. -/
def idleUpdate (time : Time) : List (ServerEvent (Sealed Nat)) :=
  [.beginUpdate time, .finishUpdate]

theorem run_idleUpdate {s : Server Nat} {m : FixedHashMap 2048 Nat FingerprintValue}
    {r : TokenRun Nat} (hr : r.server = s.withFingerprints m) (time : Time) :
    (run (tokenRunStep toyCipher serialTokens oneSlot) r (idleUpdate time)).server =
      (run (fun s ev => (serverStep toyCipher serialTokens oneSlot s ev).1) s
        (idleUpdate time)).withFingerprints m := by
  simp only [idleUpdate, run_cons, run_nil, tokenRunStep, hr]
  rw [serverStep_withFingerprints m s (by simp), serverStep_withFingerprints m _ (by simp)]

/-- The slot has been given up again. -/
def freed : Server Nat :=
  run (fun s ev => (serverStep toyCipher serialTokens oneSlot s ev).1) occupied (idleUpdate 20)

/-- Another address than `toyAddress`. -/
def otherAddress : Address := { toyAddress with port := 4001 }

/-- The map is filled, and then a token gets the slot from one address, is given up, and gets
it from another. -/
def overfilling : List (ServerEvent (Sealed Nat)) :=
  fillers 2047 ++ (idleUpdate 20 ++ (serialEvent toyAddress 5000 :: (idleUpdate 40 ++
    [serialEvent otherAddress 5000])))

/-- A server that has seen 2048 tokens takes the next one from two addresses. -/
theorem token_from_two_addresses :
    let log := (run (tokenRunStep toyCipher serialTokens oneSlot) (.start toyCipher oneSlot 0)
      overfilling).log
    ∃ first ∈ log, ∃ second ∈ log, first.2 = second.2 ∧
      addressEqual first.1 second.1 = false := by
  obtain ⟨m, hserver, hfilled⟩ := fillers_run 2047 (Nat.le_refl _)
  have hm : m.find fnv1a 5000 = none := hfilled.find_eq_none (by decide) (by decide)
  have hfreed := run_idleUpdate hserver 20
  have hnow : freed.currentTime.floor.toNat < 1000 := by decide +kernel
  have hid : freed.clientIdInUse oneSlot 5000 = false := by decide +kernel
  have hfirst := mem_log_serial hfreed (by decide) hnow hid hm toyAddress
  -- There is no room for the token, so the memory stays as it is.
  obtain ⟨value, hstep⟩ := serverStep_serial (by decide) hnow hid (by decide +kernel) hm toyAddress
  rw [hfilled.insert_full (by decide) (by decide), freed, ← hfreed,
    ← tokenRunStep_server] at hstep
  have hfreed' := run_idleUpdate hstep 40
  have hsecond := mem_log_serial hfreed' (k := 5000) (by decide) (by decide +kernel)
    (by decide +kernel) hm otherAddress
  simp only [overfilling, run_append, run_cons, run_nil]
  exact ⟨_, List.mem_append_left _ (log_subset (idleUpdate 40) _ hfirst), _, hsecond, rfl,
    by decide⟩

end Overflow

end Netudp
