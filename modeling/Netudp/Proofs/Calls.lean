/-
What the calls that send are made of.

Every function that sends for a connection, at either endpoint, is put together from the
same parts.  It queues and schedules messages, which concerns neither the keys nor the
packets; it counts a packet and seals its payload; and it does the one and the other
several times.

`CallKeeps` is the rule that follows from this: a relation between a connection, the
actions of a call and the connection afterwards holds of every such function, if it holds
of the quiet parts, of sealing one packet, and of two calls that follow each other.
-/
import Netudp.Client.Client
import Netudp.Proofs.SendPending

namespace Netudp

open Lib

variable {Key Ct : Type}

/-! ### The parts -/

/-- What no send touches. -/
structure Untouched (c c' : Connection Key) : Prop where
  active : c'.active = c.active
  address : c'.address = c.address
  clientId : c'.clientId = c.clientId
  rtt : c'.books.rtt = c.books.rtt

/-- A part of a call that sends nothing. -/
structure Quiet (c c' : Connection Key) : Prop extends Untouched c c' where
  keyEpoch : c'.keyEpoch = c.keyEpoch
  packetTracker : c'.packetTracker = c.packetTracker

/-- A part of a call that counts a packet and seals it, upon which the epoch is `e`. -/
structure SealsOne (now : Time) (c : Connection Key) (e : KeyEpoch Key) (c' : Connection Key) :
    Prop extends Untouched c c' where
  keyEpoch : c'.keyEpoch = e
  packetTracker : c'.packetTracker = c.packetTracker.sendPacket now

theorem Quiet.trans {a b c : Connection Key} (h : Quiet a b) (h' : Quiet b c) : Quiet a c where
  active := h'.active.trans h.active
  address := h'.address.trans h.address
  clientId := h'.clientId.trans h.clientId
  rtt := h'.rtt.trans h.rtt
  keyEpoch := h'.keyEpoch.trans h.keyEpoch
  packetTracker := h'.packetTracker.trans h.packetTracker

theorem Quiet.refl (c : Connection Key) : Quiet c c := ⟨⟨rfl, rfl, rfl, rfl⟩, rfl, rfl⟩

theorem quiet_queueMessage {now : Time} {c c' : Connection Key} {channel : Nat} {data : Bytes}
    {flags : SendFlags} (h : c.queueMessage now channel data flags = some c') : Quiet c c' := by
  simp only [Connection.queueMessage] at h
  split at h
  · cases h
  · obtain rfl := Option.some.inj h
    split
    · exact ⟨⟨rfl, rfl, rfl, rfl⟩, rfl, rfl⟩
    · exact ⟨⟨rfl, rfl, rfl, rfl⟩, rfl, rfl⟩

theorem quiet_clientQueueMessage {now : Time} {c c' : Connection Key} {channel : Nat}
    {data : Bytes} {flags : SendFlags}
    (h : c.clientQueueMessage now channel data flags = some c') : Quiet c c' := by
  simp only [Connection.clientQueueMessage] at h
  split at h
  · cases h
  · obtain rfl := Option.some.inj h
    split
    · exact ⟨⟨rfl, rfl, rfl, rfl⟩, rfl, rfl⟩
    · exact ⟨⟨rfl, rfl, rfl, rfl⟩, rfl, rfl⟩

theorem quiet_flushChannels (c : Connection Key) : Quiet c c.flushChannels := by
  unfold Connection.flushChannels
  induction List.range c.numChannels generalizing c with
  | nil => exact Quiet.refl c
  | cons i is ih =>
    have hset : Quiet c (c.setCh i (c.ch i).flush) := ⟨⟨rfl, rfl, rfl, rfl⟩, rfl, rfl⟩
    exact hset.trans (ih (c.setCh i (c.ch i).flush))

/-- A state update is only queued. -/
theorem quiet_serverSendState (now : Time) (c : Connection Key) (channel entityId : Nat)
    (data : Bytes) : Quiet c (serverSendState now c channel entityId data).2 := by
  unfold serverSendState
  split
  · exact Quiet.refl c
  split
  · exact Quiet.refl c
  split
  · exact Quiet.refl c
  split
  · exact Quiet.refl c
  · exact ⟨⟨rfl, rfl, rfl, rfl⟩, rfl, rfl⟩

theorem quiet_refill (c : Connection Key) (time dt : Time) : Quiet c (c.refill time dt) :=
  ⟨⟨rfl, rfl, rfl, rfl⟩, rfl, rfl⟩

theorem quiet_slowTick (c : Connection Key) (time : Time) : Quiet c (c.slowTick time) := by
  unfold Connection.slowTick
  split
  · exact ⟨⟨rfl, rfl, rfl, rfl⟩, rfl, rfl⟩
  · exact Quiet.refl c

/-- The action belongs to a quiet part. -/
def SendAction.isQuiet : SendAction Key Ct → Bool
  | .dequeued _ _ => true
  | .recorded _ _ _ => true
  | _ => false

/-- What a seal adds to the actions: the packet, if there is one, and the rekey with it. -/
def sealActions (e : KeyEpoch Key) (payload : Bytes) :
    Option (Packet Ct) × KeyEpoch Key → List (SendAction Key Ct)
  | (none, _) => []
  | (some packet, e') =>
    .emitted e.txKey e.txNonceCounter payload packet :: rekeyedTo e e'

theorem packetEncrypt_cases (C : Primitives Key Ct) (e : KeyEpoch Key) (pid : Nat)
    (prefixByte : UInt8) (pt : Bytes) :
    packetEncrypt C e pid prefixByte pt = (none, e) ∨
      ∃ ct, packetEncrypt C e pid prefixByte pt = (some ct, { e with
        txNonceCounter := (e.txNonceCounter + 1) % u64Size
        bytesTransmitted := (e.bytesTransmitted + pt.length) % u64Size }) := by
  simp only [packetEncrypt]
  split
  · exact Or.inl rfl
  · exact Or.inr ⟨_, rfl⟩

theorem sealKeepalive_cases (C : Primitives Key Ct) (pid : Nat) (e : KeyEpoch Key)
    (payload : Bytes) :
    sealKeepalive C pid e payload = (none, e) ∨
      ∃ ct, sealKeepalive C pid e payload = (some ⟨prefixKeepalive, ct⟩, { e with
        txNonceCounter := (e.txNonceCounter + 1) % u64Size
        bytesTransmitted := (e.bytesTransmitted + payload.length) % u64Size }) := by
  simp only [sealKeepalive]
  rcases packetEncrypt_cases C e pid prefixKeepalive payload with h | ⟨ct, h⟩
  · rw [h]
    exact Or.inl rfl
  · rw [h]
    exact Or.inr ⟨ct, rfl⟩

/-! ### The rule -/

/-- A relation between a connection, the actions of a call and the connection afterwards,
that holds of the parts a call is made of. -/
structure CallKeeps (S : SendPath Key Ct) (C : Primitives Key Ct) (pid : Nat) (now : Time)
    (R : Connection Key → List (SendAction Key Ct) → Connection Key → Prop) : Prop where
  quiet : ∀ {c c' acts}, (∀ a ∈ acts, a.isQuiet = true) → Quiet c c' → R c acts c'
  trans : ∀ {c c' c'' as bs}, R c as c' → R c' bs c'' → R c (as ++ bs) c''
  data : ∀ {c c'} payload, SealsOne now c (S.sealPacket now c.keyEpoch payload).2 c' →
    R c (sealActions c.keyEpoch payload (S.sealPacket now c.keyEpoch payload)) c'
  keepalive : ∀ {c c'} payload, SealsOne now c (sealKeepalive C pid c.keyEpoch payload).2 c' →
    R c (sealActions c.keyEpoch payload (sealKeepalive C pid c.keyEpoch payload)) c'

namespace CallKeeps

variable {S : SendPath Key Ct} {C : Primitives Key Ct} {pid : Nat} {now : Time}
  {c c' c'' : Connection Key} {acts : List (SendAction Key Ct)}
  {R : Connection Key → List (SendAction Key Ct) → Connection Key → Prop}

theorem silent (hR : CallKeeps S C pid now R) (h : Quiet c c') : R c [] c' :=
  hR.quiet (List.forall_mem_nil _) h

theorem refl (hR : CallKeeps S C pid now R) (c : Connection Key) : R c [] c :=
  hR.silent (Quiet.refl c)

theorem after (hR : CallKeeps S C pid now R) (hq : Quiet c c') (h : R c' acts c'') :
    R c acts c'' :=
  hR.trans (hR.silent hq) h

theorem before (hR : CallKeeps S C pid now R) (h : R c acts c') (hq : Quiet c' c'') :
    R c acts c'' := by
  simpa using hR.trans h (hR.silent hq)

theorem loopKeeps (hR : CallKeeps S C pid now R) (hnext : ∀ c, Quiet c (S.next now c).2)
    (c : Connection Key) : LoopKeeps S now fun p => R c p.actions p.conn where
  flush p h := by
    have hdata : ∀ c', SealsOne now p.conn (S.sealPacket now p.conn.keyEpoch p.payload).2 c' →
        R p.conn (sealActions p.conn.keyEpoch p.payload
          (S.sealPacket now p.conn.keyEpoch p.payload)) c' := fun _ => hR.data p.payload
    simp only [Packing.flush]
    cases hres : S.sealPacket now p.conn.keyEpoch p.payload with
    | mk res e' =>
      rw [hres] at hdata
      cases res with
      | none =>
        simp only
        rw [← List.append_nil p.actions]
        exact hR.trans h (hdata _ ⟨⟨rfl, rfl, rfl, rfl⟩, rfl, rfl⟩)
      | some packet => exact hR.trans h (hdata _ ⟨⟨rfl, rfl, rfl, rfl⟩, rfl, rfl⟩)
  startPacket p h := h
  record p ch data h := by
    simp only [Packing.record]
    split
    · exact h
    · exact hR.trans h (hR.quiet (by simp [SendAction.isQuiet]) ⟨⟨rfl, rfl, rfl, rfl⟩, rfl, rfl⟩)
  append p frame h := by
    cases frame with
    | none => exact h
    | some bytes => exact h
  taken p ch msg q _ h :=
    hR.trans h (hR.quiet (by simp [SendAction.isQuiet]) ⟨⟨rfl, rfl, rfl, rfl⟩, rfl, rfl⟩)
  schedule p h := hR.before h (hnext p.conn)

/-- **It holds of a call of the send path.** -/
theorem sendPending (hR : CallKeeps S C pid now R) (hnext : ∀ c, Quiet c (S.next now c).2)
    (c : Connection Key) : R c (sendPending S now c).2 (sendPending S now c).1 := by
  obtain ⟨p, hp, heq⟩ := sendPending_keeps (hR.loopKeeps hnext c) c (hR.refl c)
  rw [heq]
  exact hp

/-! ### The server's calls -/

theorem serverSendPending (hR : CallKeeps (serverPath C pid) C pid now R) (c : Connection Key) :
    R c (serverSendPending C pid now c).2 (serverSendPending C pid now c).1 :=
  hR.sendPending (fun _ => ⟨⟨rfl, rfl, rfl, rfl⟩, rfl, rfl⟩) c

theorem serverSend (hR : CallKeeps (serverPath C pid) C pid now R) (c : Connection Key)
    (channel : Nat) (data : Bytes) (flags : SendFlags) :
    R c (serverSend C pid now c channel data flags).2.2
      (serverSend C pid now c channel data flags).2.1 := by
  unfold Netudp.serverSend
  split
  · exact hR.refl c
  split
  · exact hR.refl c
  cases hq : c.queueMessage now channel data flags with
  | none => exact hR.refl c
  | some c' =>
    simp only
    split
    · exact hR.after (quiet_queueMessage hq) (hR.serverSendPending c')
    · exact hR.silent (quiet_queueMessage hq)

theorem serverSendState (hR : CallKeeps (serverPath C pid) C pid now R) (c : Connection Key)
    (channel entityId : Nat) (data : Bytes) :
    R c [] (serverSendState now c channel entityId data).2 :=
  hR.silent (quiet_serverSendState now c channel entityId data)

theorem serverFlush (hR : CallKeeps (serverPath C pid) C pid now R) (c : Connection Key) :
    R c (serverFlush C pid now c).2 (serverFlush C pid now c).1 := by
  unfold Netudp.serverFlush
  split
  · exact hR.refl c
  · exact hR.after (quiet_flushChannels c) (hR.serverSendPending c.flushChannels)

/-- A keepalive is not sealed and nothing is sent, or one packet is. -/
theorem keepalive_cases (hR : CallKeeps S C pid now R) (c : Connection Key) (payload : Bytes) :
    (∃ e, sealKeepalive C pid c.keyEpoch payload = (none, e) ∧
        ∀ c', SealsOne now c e c' → R c [] c') ∨
      ∃ packet e, sealKeepalive C pid c.keyEpoch payload = (some packet, e) ∧
        ∀ c', SealsOne now c e c' →
          R c [.emitted c.keyEpoch.txKey c.keyEpoch.txNonceCounter payload packet] c' := by
  have hkeeps : ∀ c', SealsOne now c (sealKeepalive C pid c.keyEpoch payload).2 c' →
      R c (sealActions c.keyEpoch payload (sealKeepalive C pid c.keyEpoch payload)) c' :=
    fun _ => hR.keepalive payload
  rcases sealKeepalive_cases C pid c.keyEpoch payload with h | ⟨ct, h⟩
  · rw [h] at hkeeps ⊢
    exact Or.inl ⟨_, rfl, hkeeps⟩
  · rw [h] at hkeeps ⊢
    simp only [sealActions, rekeyedTo, if_true] at hkeeps
    exact Or.inr ⟨_, _, rfl, hkeeps⟩

theorem serverSendKeepalive (hR : CallKeeps S C pid now R) (c : Connection Key) :
    R c (serverSendKeepalive C pid now c).2 (serverSendKeepalive C pid now c).1 := by
  simp only [Netudp.serverSendKeepalive]
  rcases hR.keepalive_cases c (writeAckFields (c.packetTracker.buildAckFields now)) with
    ⟨e, hseal, hkeeps⟩ | ⟨packet, e, hseal, hkeeps⟩
  · rw [hseal]
    exact hkeeps _ ⟨⟨rfl, rfl, rfl, rfl⟩, rfl, rfl⟩
  · rw [hseal]
    exact hkeeps _ ⟨⟨rfl, rfl, rfl, rfl⟩, rfl, rfl⟩

theorem serverSendAccept {cfg : ServerConfig} (hR : CallKeeps S C cfg.protocolId now R)
    (slot : Nat) (c : Connection Key) :
    R c (serverSendAccept C cfg now slot c).2 (serverSendAccept C cfg now slot c).1 := by
  simp only [Netudp.serverSendAccept]
  rcases hR.keepalive_cases c (leBytes 2 slot ++ leBytes 4 cfg.maxClients ++
      writeAckFields (c.packetTracker.buildAckFields now)) with
    ⟨e, hseal, hkeeps⟩ | ⟨packet, e, hseal, hkeeps⟩
  · rw [hseal]
    exact hkeeps _ ⟨⟨rfl, rfl, rfl, rfl⟩, rfl, rfl⟩
  · rw [hseal]
    exact hkeeps _ ⟨⟨rfl, rfl, rfl, rfl⟩, rfl, rfl⟩

/-- **It holds of what `netudp_server_update` does with a connection.** -/
theorem serverUpdateConnection (hR : CallKeeps (serverPath C pid) C pid now R) (dt : Time)
    (c : Connection Key) :
    R c (serverUpdateConnection C pid now dt c).2 (serverUpdateConnection C pid now dt c).1 := by
  have hsent := hR.after (quiet_refill c now dt) (hR.serverSendPending _)
  simp only [Netudp.serverUpdateConnection]
  split
  · exact hR.silent (quiet_slowTick c now)
  · split
    · exact hR.before (hR.trans hsent (hR.serverSendKeepalive _)) (quiet_slowTick _ now)
    · exact hR.before hsent (quiet_slowTick _ now)

/-! ### The client's calls -/

theorem clientSendPending (hR : CallKeeps (clientPath C pid) C pid now R) (c : Connection Key) :
    R c (clientSendPending C pid now c).2 (clientSendPending C pid now c).1 :=
  hR.sendPending (fun c => Quiet.refl c) c

theorem clientSend (hR : CallKeeps (clientPath C pid) C pid now R) (c : Connection Key)
    (channel : Nat) (data : Bytes) (flags : SendFlags) :
    R c (clientSend C pid now c channel data flags).2.2
      (clientSend C pid now c channel data flags).2.1 := by
  unfold Netudp.clientSend
  split
  · exact hR.refl c
  cases hq : c.clientQueueMessage now channel data flags with
  | none => exact hR.refl c
  | some c' =>
    simp only
    split
    · exact hR.after (quiet_clientQueueMessage hq) (hR.clientSendPending c')
    · exact hR.silent (quiet_clientQueueMessage hq)

theorem clientFlush (hR : CallKeeps (clientPath C pid) C pid now R) (c : Connection Key) :
    R c (clientFlush C pid now c).2 (clientFlush C pid now c).1 :=
  hR.after (quiet_flushChannels c) (hR.clientSendPending c.flushChannels)

end CallKeeps

section ClientUpdate

variable {S : SendPath KeyBytes Ct} {C : Primitives KeyBytes Ct} {pid : Nat} {now : Time}
  {R : Connection KeyBytes → List (SendAction KeyBytes Ct) → Connection KeyBytes → Prop}

theorem CallKeeps.clientSendKeepalive (hR : CallKeeps S C pid now R) (c : Connection KeyBytes) :
    R c (Client.sendKeepalive C pid now c).2 (Client.sendKeepalive C pid now c).1 := by
  simp only [Client.sendKeepalive]
  split
  · rcases hR.keepalive_cases c (writeAckFields (c.packetTracker.buildAckFields now)) with
      ⟨e, hseal, hkeeps⟩ | ⟨packet, e, hseal, hkeeps⟩
    · rw [hseal]
      exact hkeeps _ ⟨⟨rfl, rfl, rfl, rfl⟩, rfl, rfl⟩
    · rw [hseal]
      exact hkeeps _ ⟨⟨rfl, rfl, rfl, rfl⟩, rfl, rfl⟩
  · exact hR.refl c

/-- **It holds of what `netudp_client_update` does with the connection before it receives.** -/
theorem CallKeeps.clientUpdateConnected {cfg : ClientConfig}
    (hR : CallKeeps (clientPath C cfg.protocolId) C cfg.protocolId now R) (dt : Time)
    (c : Client) :
    ∃ acts, (c.updateConnected C cfg now dt).2 = acts.map .did ∧
      R c.conn acts (c.updateConnected C cfg now dt).1.conn := by
  have hsent := hR.after (quiet_refill c.conn now dt)
    (hR.clientSendPending _)
  have hboth := hR.trans hsent (hR.clientSendKeepalive _)
  simp only [Client.updateConnected]
  refine ⟨_, rfl, ?_⟩
  split
  · exact hboth
  · exact hR.before hboth ⟨⟨rfl, rfl, rfl, rfl⟩, rfl, rfl⟩

end ClientUpdate

end Netudp
