/-
Both directions of an established connection over lossless FIFO links.

The server may start a rekey whenever it sends data; the client's handler does not
know the rekey prefix and keeps its keys.  The two ends therefore agree exactly as
long as no rekey starts: `session_agrees_without_rekey` is the run without one, and
`session_breaks_after_rekey` the first packet after one.
-/
import Netudp.Proofs.Rekey

namespace Netudp

open Lib ReplayProtection

variable {Key Ct : Type} {C : Primitives Key Ct} {pid : Nat} {now : Time}

/-! ### The system -/

/-- The epochs of the two ends and the packets in flight each way, oldest first. -/
structure Session (Key Ct : Type) where
  server : KeyEpoch Key
  client : KeyEpoch Key
  toClient : List (SentPacket Ct)
  toServer : List (SentPacket Ct)

inductive SessionEvent where
  | serverData (pt : Bytes) (now : Time)
  | serverKeepalive (pt : Bytes)
  | clientData (pt : Bytes)
  | clientKeepalive (pt : Bytes)
  /-- The oldest packet for the client reaches it. -/
  | atClient
  /-- The oldest packet for the server reaches it. -/
  | atServer (now : Time)

/-- The server has sealed a packet, or failed to. -/
def Session.serverSent (s : Session Key Ct) : Option (Packet Ct) × KeyEpoch Key → Session Key Ct
  | (none, e) => { s with server := e }
  | (some p, e) =>
    { s with server := e, toClient := s.toClient ++ [⟨s.server.txNonceCounter, p⟩] }

/-- The client has sealed a packet, or failed to. -/
def Session.clientSent (s : Session Key Ct) : Option (Packet Ct) × KeyEpoch Key → Session Key Ct
  | (none, e) => { s with client := e }
  | (some p, e) =>
    { s with client := e, toServer := s.toServer ++ [⟨s.client.txNonceCounter, p⟩] }

def sessionStep (C : Primitives Key Ct) (pid : Nat) (s : Session Key Ct) :
    SessionEvent → Session Key Ct
  | .serverData pt now => s.serverSent (serverSealData C pid now s.server pt)
  | .serverKeepalive pt => s.serverSent (sealKeepalive C pid s.server pt)
  | .clientData pt => s.clientSent (clientSealData C pid s.client pt)
  | .clientKeepalive pt => s.clientSent (sealKeepalive C pid s.client pt)
  | .atClient =>
    match s.toClient with
    | [] => s
    | p :: rest =>
      { s with client := (clientOpenPacket C pid s.client p.packet).2, toClient := rest }
  | .atServer now =>
    match s.toServer with
    | [] => s
    | p :: rest =>
      { s with server := (serverOpenPacket C pid now s.server p.packet).2, toServer := rest }

/-- The connection as it is established: the client has opened the
connection-accepted keepalive, and nothing is in flight. -/
def Session.established (C : Primitives Key Ct) (pid : Nat) (clientToServer serverToClient : Key)
    (accept : Bytes) : Session Key Ct :=
  { server := (Link.established C pid clientToServer serverToClient accept .client).sender
    client := (Link.established C pid clientToServer serverToClient accept .client).receiver
    toClient := []
    toServer := [] }

/-- A packet that arrives is accepted. -/
def Accepts (C : Primitives Key Ct) (pid : Nat) (s : Session Key Ct) : SessionEvent → Prop
  | .atClient => ∀ p rest, s.toClient = p :: rest →
      (clientOpenPacket C pid s.client p.packet).1.isSome = true
  | .atServer now => ∀ p rest, s.toServer = p :: rest →
      (serverOpenPacket C pid now s.server p.packet).1.isSome = true
  | _ => True

/-- No rekey is due when the server sends data, and nonces stay below `2 ^ 64 - 256`. -/
def NoRekeyDue (s : Session Key Ct) : SessionEvent → Prop
  | .serverData _ now =>
    shouldRekey s.server now = false ∧ s.server.txNonceCounter < 2 ^ 64 - 256
  | .serverKeepalive _ => s.server.txNonceCounter < 2 ^ 64 - 256
  | .clientData _ => s.client.txNonceCounter < 2 ^ 64 - 256
  | .clientKeepalive _ => s.client.txNonceCounter < 2 ^ 64 - 256
  | _ => True

instance (s : Session Key Ct) (ev) : Decidable (NoRekeyDue s ev) := by
  cases ev <;> dsimp only [NoRekeyDue] <;> infer_instance

/-! ### One direction

`Flows` is a direction without rekeys: the packets in flight take the receiver's
stage to the sender's, and each of them is one the receiver's handler opens.
-/

structure Flows (C : Primitives Key Ct) (pid : Nat) (ep : Endpoint)
    (sender receiver : KeyEpoch Key) (flight : List (SentPacket Ct)) (s : Stage Key) : Prop where
  key : receiver.rxKey = s.key
  window : UpTo receiver.replay s.next
  carries : Carries C pid s flight sender.stage
  plain : ∀ p ∈ flight, p.packet.prefixByte ≠ packetPrefixDataRekey
  closed : receiver.gracePacketsRemaining ≤ 0
  connected : ep = .client → 0 < s.next

section Flows

variable {ep : Endpoint} {sender receiver : KeyEpoch Key} {flight : List (SentPacket Ct)}
  {s : Stage Key}

theorem Flows.sent (h : Flows C pid ep sender receiver flight s) (kind : PacketKind) {ct : Ct}
    {pt : Bytes} (hw : sender.txNonceCounter < 2 ^ 64 - 256)
    (hct : C.encrypt sender.txKey (buildNonce sender.txNonceCounter)
      (buildAad pid kind.prefixByte) pt = some ct) :
    Flows C pid ep (sender.counted pt.length) receiver
      (flight ++ [⟨sender.txNonceCounter, ⟨kind.prefixByte, ct⟩⟩]) s := by
  have hsealed : SealedAt C pid sender.stage
      ⟨sender.txNonceCounter, ⟨kind.prefixByte, ct⟩⟩ :=
    ⟨rfl, unwrapped_of_lt hw, pt, hct⟩
  refine ⟨h.key, h.window, ?_, ?_, h.closed, h.connected⟩
  · rw [counted_stage hw kind]
    exact h.carries.concat hsealed
  · intro p hp
    rcases List.mem_append.mp hp with hold | hnew
    · exact h.plain p hold
    · rw [List.mem_singleton.mp hnew]
      exact kind.prefixByte_ne

/-- What the receiver sends the other way does not disturb the direction. -/
theorem Flows.receiver_counted (h : Flows C pid ep sender receiver flight s) (len : Nat) :
    Flows C pid ep sender (receiver.counted len) flight s :=
  ⟨h.key, h.window, h.carries, h.plain, h.closed, h.connected⟩

theorem Flows.sender_received (h : Flows C pid ep sender receiver flight s) (n : Nat) :
    Flows C pid ep (sender.received n) receiver flight s :=
  ⟨h.key, h.window, h.carries, h.plain, h.closed, h.connected⟩

theorem Flows.arrive (hC : C.Ideal) {p : SentPacket Ct} {rest : List (SentPacket Ct)}
    (h : Flows C pid ep sender receiver (p :: rest) s) (now : Time) :
    ∃ pt, ep.openPacket C pid now receiver p.packet = (some pt, receiver.received s.next) ∧
      Flows C pid ep sender (receiver.received s.next) rest
        (s.after C p.packet.prefixByte) := by
  obtain ⟨hsealed, hrest⟩ := h.carries
  obtain ⟨pt, hgen⟩ := hsealed.genuine
  have hkind := h.plain p List.mem_cons_self
  have hlt : s.next < u64Size := by
    have := hsealed.unwrapped
    unfold Unwrapped at this
    omega
  rw [← h.key] at hgen
  have hopen := openPacket_genuine hC ep now h.window h.connected h.closed hkind hlt hgen
  rw [if_pos ⟨rfl, hsealed.unwrapped⟩] at hopen
  have hafter : s.after C p.packet.prefixByte = { s with next := s.next + 1 } := if_neg hkind
  rw [hafter] at hrest ⊢
  exact ⟨pt, hopen, h.key, h.window.advance hsealed.unwrapped, hrest,
    fun q hq => h.plain q (List.mem_cons_of_mem _ hq), h.closed, fun _ => Nat.succ_pos _⟩

end Flows

/-! ### Both directions -/

structure InAgreement (C : Primitives Key Ct) (pid : Nat) (s : Session Key Ct) : Prop where
  down : ∃ st, Flows C pid .client s.server s.client s.toClient st
  up : ∃ st, Flows C pid .server s.client s.server s.toServer st
  idle : s.server.rekeyPending = false

/-- Without a rekey due, data is sealed under the current key and the data prefix. -/
theorem serverSealData_plain {e : KeyEpoch Key} {ct : Ct} {pt : Bytes}
    (hdue : shouldRekey e now = false) (hidle : e.rekeyPending = false)
    (henc : packetEncrypt C e pid prefixData pt = (some ct, e.counted pt.length)) :
    serverSealData C pid now e pt = (some ⟨prefixData, ct⟩, e.counted pt.length) := by
  have hidle' : (e.counted pt.length).rekeyPending = false := hidle
  simp [serverSealData, hdue, hidle, henc, hidle']

theorem serverSent_inAgreement {s : Session Key Ct} (h : InAgreement C pid s)
    (kind : PacketKind) {ct : Ct} {pt : Bytes} (hw : s.server.txNonceCounter < 2 ^ 64 - 256)
    (hct : C.encrypt s.server.txKey (buildNonce s.server.txNonceCounter)
      (buildAad pid kind.prefixByte) pt = some ct) :
    InAgreement C pid
      (s.serverSent (some ⟨kind.prefixByte, ct⟩, s.server.counted pt.length)) := by
  obtain ⟨st, hdown⟩ := h.down
  obtain ⟨st', hup⟩ := h.up
  exact ⟨⟨st, hdown.sent kind hw hct⟩, ⟨st', hup.receiver_counted _⟩, h.idle⟩

theorem clientSent_inAgreement {s : Session Key Ct} (h : InAgreement C pid s)
    (kind : PacketKind) {ct : Ct} {pt : Bytes} (hw : s.client.txNonceCounter < 2 ^ 64 - 256)
    (hct : C.encrypt s.client.txKey (buildNonce s.client.txNonceCounter)
      (buildAad pid kind.prefixByte) pt = some ct) :
    InAgreement C pid
      (s.clientSent (some ⟨kind.prefixByte, ct⟩, s.client.counted pt.length)) := by
  obtain ⟨st, hdown⟩ := h.down
  obtain ⟨st', hup⟩ := h.up
  exact ⟨⟨st, hdown.receiver_counted _⟩, ⟨st', hup.sent kind hw hct⟩, h.idle⟩

theorem atClient_inAgreement (hC : C.Ideal) {s : Session Key Ct} (h : InAgreement C pid s) :
    Accepts C pid s .atClient ∧ InAgreement C pid (sessionStep C pid s .atClient) := by
  obtain ⟨st, hdown⟩ := h.down
  obtain ⟨st', hup⟩ := h.up
  simp only [Accepts, sessionStep]
  cases hfl : s.toClient with
  | nil => exact ⟨nofun, h⟩
  | cons p rest =>
    rw [hfl] at hdown
    obtain ⟨pt, hopen, hdown'⟩ := hdown.arrive hC 0
    have hopen' : clientOpenPacket C pid s.client p.packet
        = (some pt, s.client.received st.next) := hopen
    simp only [hopen']
    refine ⟨fun q rest' hq => ?_, ⟨_, hdown'⟩, ⟨st', hup.sender_received _⟩, h.idle⟩
    rw [← (List.cons.inj hq).1, hopen']
    rfl

theorem atServer_inAgreement (hC : C.Ideal) {s : Session Key Ct} (h : InAgreement C pid s)
    (now : Time) :
    Accepts C pid s (.atServer now) ∧ InAgreement C pid (sessionStep C pid s (.atServer now)) := by
  obtain ⟨st, hdown⟩ := h.down
  obtain ⟨st', hup⟩ := h.up
  simp only [Accepts, sessionStep]
  cases hfl : s.toServer with
  | nil => exact ⟨nofun, h⟩
  | cons p rest =>
    rw [hfl] at hup
    obtain ⟨pt, hopen, hup'⟩ := hup.arrive hC now
    have hopen' : serverOpenPacket C pid now s.server p.packet
        = (some pt, s.server.received st'.next) := hopen
    simp only [hopen']
    refine ⟨fun q rest' hq => ?_, ⟨st, hdown.sender_received _⟩, ⟨_, hup'⟩, h.idle⟩
    rw [← (List.cons.inj hq).1, hopen']
    rfl

theorem sessionStep_inAgreement (hC : C.Ideal) {s : Session Key Ct} (h : InAgreement C pid s)
    {ev : SessionEvent} (hev : NoRekeyDue s ev) :
    Accepts C pid s ev ∧ InAgreement C pid (sessionStep C pid s ev) := by
  cases ev with
  | serverData pt now =>
    obtain ⟨ct, hct, henc⟩ := packetEncrypt_ideal hC s.server pid prefixData pt
    refine ⟨trivial, ?_⟩
    simp only [sessionStep, serverSealData_plain hev.1 h.idle henc]
    exact serverSent_inAgreement h .data hev.2 hct
  | serverKeepalive pt =>
    obtain ⟨ct, hct, henc⟩ := packetEncrypt_ideal hC s.server pid prefixKeepalive pt
    refine ⟨trivial, ?_⟩
    simp only [sessionStep, sealKeepalive, henc]
    exact serverSent_inAgreement h .keepalive hev hct
  | clientData pt =>
    obtain ⟨ct, hct, henc⟩ := packetEncrypt_ideal hC s.client pid prefixData pt
    refine ⟨trivial, ?_⟩
    simp only [sessionStep, clientSealData, henc]
    exact clientSent_inAgreement h .data hev hct
  | clientKeepalive pt =>
    obtain ⟨ct, hct, henc⟩ := packetEncrypt_ideal hC s.client pid prefixKeepalive pt
    refine ⟨trivial, ?_⟩
    simp only [sessionStep, sealKeepalive, henc]
    exact clientSent_inAgreement h .keepalive hev hct
  | atClient => exact atClient_inAgreement hC h
  | atServer now => exact atServer_inAgreement hC h now

theorem established_eq (hC : C.Ideal) (pid : Nat) (c2s s2c : Key) (accept : Bytes) :
    Session.established C pid c2s s2c accept =
      { server := (serverKeySetup C c2s s2c).counted accept.length
        client := (clientKeySetup C c2s s2c).received 0
        toClient := []
        toServer := [] } := by
  obtain ⟨ct, -, hlink⟩ := established_client hC pid c2s s2c accept
  unfold Session.established
  rw [hlink]

theorem established_inAgreement (hC : C.Ideal) (pid : Nat) (c2s s2c : Key) (accept : Bytes) :
    InAgreement C pid (Session.established C pid c2s s2c accept) := by
  rw [established_eq hC]
  refine ⟨⟨⟨s2c, c2s, 0, 1⟩, ?_⟩, ⟨⟨c2s, s2c, 0, 0⟩, ?_⟩, rfl⟩
  · exact ⟨rfl, upTo_reset.advance (by decide), rfl, List.forall_mem_nil _, Int.le_refl _,
      fun _ => Nat.one_pos⟩
  · exact ⟨rfl, upTo_reset, rfl, List.forall_mem_nil _, Int.le_refl _, fun hc => by cases hc⟩

/--
**The two ends agree as long as no rekey starts.**  In every run in which no rekey is
due when the server sends data, and nonces stay below the wrap, each packet either
end emits is accepted by the other.
-/
theorem session_agrees_without_rekey (C : Primitives Key Ct) (hC : C.Ideal) (pid : Nat)
    (c2s s2c : Key) (accept : Bytes) (es : List SessionEvent)
    (hes : Along (sessionStep C pid) NoRekeyDue (Session.established C pid c2s s2c accept) es) :
    Along (sessionStep C pid) (Accepts C pid) (Session.established C pid c2s s2c accept) es :=
  along_of_invariant (InAgreement C pid) (fun _ _ h hev => sessionStep_inAgreement hC h hev)
    (established_inAgreement hC pid c2s s2c accept) hes

/-- Data and keepalives both ways, with packets of both directions in flight at once. -/
theorem session_agrees_both_ways :
    Along (sessionStep toyCipher 7) (Accepts toyCipher 7)
      (Session.established toyCipher 7 1 2 [0])
      [.serverData [1] 5, .clientData [2], .serverKeepalive [3], .atClient, .clientKeepalive [4],
        .atServer 6, .atClient, .atServer 6] :=
  session_agrees_without_rekey toyCipher toyCipher_ideal 7 1 2 [0] _ (by decide)

/-! ### A rekey -/

/-- A data send with a rekey due: the packet goes out under the old key, and the
server moves on to the derived ones. -/
theorem serverSealData_due {e : KeyEpoch Key} {ct : Ct} {pt : Bytes}
    (hdue : shouldRekey e now = true) (hidle : e.rekeyPending = false)
    (henc : packetEncrypt C (prepareRekey e) pid packetPrefixDataRekey pt
      = (some ct, (prepareRekey e).counted pt.length)) :
    serverSealData C pid now e pt = (some ⟨packetPrefixDataRekey, ct⟩,
      activateRekey C ((prepareRekey e).counted pt.length) now) := by
  have hpend : (prepareRekey e).rekeyPending = true := rfl
  have hpend' : ((prepareRekey e).counted pt.length).rekeyPending = true := rfl
  simp [serverSealData, hdue, hidle, henc, hpend, hpend']

theorem packetDecrypt_rxKey (e : KeyEpoch Key) (b : UInt8) (n : Nat) (ct : Ct) :
    (packetDecrypt C e pid b n ct).2.rxKey = e.rxKey := by
  unfold packetDecrypt
  split
  · rfl
  · split
    · rfl
    · split <;> rfl

/-- Acks alone: the payload of a keepalive. -/
def ackPayload : Bytes := List.replicate 8 0

/-- A rekey and the next data packet, each delivered at once. -/
def rekeyAndSend : List SessionEvent :=
  [.serverData ackPayload 0, .atClient, .serverData ackPayload 0, .atClient]

/-- The client does not follow a rekey, so it rejects the packet after it. -/
theorem rekeyAndSend_rejected (hC : C.Ideal) {s : Session Key Ct} (h : InAgreement C pid s)
    (hnil : s.toClient = []) (hdue : rekeyNonceThreshold ≤ s.server.txNonceCounter)
    (hkey : ∀ n, deriveKey C s.server.txKey n ≠ s.server.txKey) :
    ¬ Along (sessionStep C pid) (Accepts C pid) s rekeyAndSend := by
  have hsync : s.client.rxKey = s.server.txKey := by
    obtain ⟨st, hdown⟩ := h.down
    have hst : st = s.server.stage := by
      have := hdown.carries
      rwa [hnil] at this
    rw [hdown.key, hst]
    rfl
  -- The rekey packet.
  have hdue' : shouldRekey s.server 0 = true := by simp [shouldRekey, hdue]
  obtain ⟨ct, -, henc⟩ :=
    packetEncrypt_ideal hC (prepareRekey s.server) pid packetPrefixDataRekey ackPayload
  have hseal := serverSealData_due hdue' h.idle henc
  generalize hnew : activateRekey C ((prepareRekey s.server).counted ackPayload.length) 0 = e
    at hseal
  -- The packet after it, under the derived key.
  have hnotdue : shouldRekey e 0 = false := by rw [← hnew]; rfl
  have hidle : e.rekeyPending = false := by rw [← hnew]; rfl
  obtain ⟨ct', hct', henc'⟩ := packetEncrypt_ideal hC e pid prefixData ackPayload
  have hseal' := serverSealData_plain hnotdue hidle henc'
  intro hal
  have hlast := hal.2.2.2.1
  simp only [sessionStep, Session.serverSent, hseal, hnil, List.nil_append, hseal', Accepts]
    at hlast
  obtain ⟨pt, hpt⟩ := Option.isSome_iff_exists.mp (hlast _ _ rfl)
  obtain ⟨-, -, hopen, -⟩ := packetDecrypt_eq_some_iff.mp (Prod.ext hpt rfl)
  have heq := ((hC.opens hct').mp hopen).1
  rw [clientOpenPacket, packetDecrypt_rxKey, hsync, ← hnew] at heq
  exact hkey _ heq.symm

/-- A keepalive that is delivered before the next is sent. -/
def keepalive : List SessionEvent :=
  [.serverKeepalive ackPayload, .atClient]

theorem run_keepalives (hC : C.Ideal) {s : Session Key Ct} (h : InAgreement C pid s)
    (hnil : s.toClient = []) :
    ∀ n, s.server.txNonceCounter + n ≤ 2 ^ 64 - 256 →
      ∃ s', run (sessionStep C pid) s (rounds n keepalive) = s' ∧ InAgreement C pid s' ∧
        s'.toClient = [] ∧ s'.server.txNonceCounter = s.server.txNonceCounter + n := by
  intro n
  induction n with
  | zero => intro _; exact ⟨s, rfl, h, hnil, rfl⟩
  | succ n ih =>
    intro hn
    obtain ⟨t, ht, hin, hfl, hctr⟩ := ih (by omega)
    rw [rounds_succ, run_append, ht]
    have hw : t.server.txNonceCounter < 2 ^ 64 - 256 := by omega
    have hsent := (sessionStep_inAgreement hC hin (show NoRekeyDue t (.serverKeepalive ackPayload) from hw)).2
    refine ⟨_, rfl, (atClient_inAgreement hC hsent).2, ?_⟩
    obtain ⟨ct, -, henc⟩ := packetEncrypt_ideal hC t.server pid prefixKeepalive ackPayload
    have hcount : (t.server.counted ackPayload.length).txNonceCounter
        = s.server.txNonceCounter + (n + 1) := by
      show (t.server.txNonceCounter + 1) % u64Size = _
      rw [hctr]
      refine Nat.mod_eq_of_lt ?_
      unfold u64Size
      omega
    simp only [keepalive, run_cons, run_nil, sessionStep, Session.serverSent, sealKeepalive, henc, hfl,
      List.nil_append]
    exact ⟨trivial, hcount⟩

/-- A connection that has sent `2 ^ 30` packets and then two data packets: the first
rekeys, and the client rejects the second. -/
theorem session_breaks_after_rekey :
    ¬ Along (sessionStep toyCipher 7) (Accepts toyCipher 7)
      (Session.established toyCipher 7 1 2 (List.replicate 14 0))
      (rounds (rekeyNonceThreshold - 1) keepalive ++ rekeyAndSend) := by
  have hstart := established_inAgreement toyCipher_ideal 7 1 2 (List.replicate 14 0)
  have hone : (Session.established toyCipher 7 1 2 (List.replicate 14 0)).server.txNonceCounter
      = 1 := rfl
  obtain ⟨s, hs, hin, hfl, hctr⟩ := run_keepalives toyCipher_ideal hstart rfl
    (rekeyNonceThreshold - 1) (by rw [hone]; decide)
  rw [along_append, hs]
  intro hal
  refine rekeyAndSend_rejected toyCipher_ideal hin hfl ?_ ?_ hal.2
  · rw [hctr, hone]
    decide
  · intro n hn
    have : ∀ k : Nat, k + 100 ≠ k := fun k => by omega
    exact this _ hn

end Netudp
