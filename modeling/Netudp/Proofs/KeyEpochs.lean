/-
When a key epoch ends.

An epoch is to end once it has used 2^30 nonces, sent 2^30 bytes or grown an hour old.
The account of an epoch counts that beside the run: how many packets and bytes went out
since it began, and when that was.  `should_rekey` reads the same off the `KeyEpoch`, with
one exception: an `epoch_start_time` of zero means that there is none, and nothing sets it
before the first rekey.  So the first epoch of a connection never grows old, and neither
does one that begins at a time that is not positive.

Everything else holds of every run: a data packet sent when the epoch is over is a rekey
packet, and a new epoch begins right after it.
-/
import Netudp.Proofs.KeyUse
import Netudp.Proofs.PendingMask

namespace Netudp

open Lib

variable {Key Ct : Type}

/-! ### The account of an epoch -/

/-- What an epoch has used up, when it began, and whether it is the first one. -/
structure EpochAccount where
  nonces : Nat := 0
  bytes : Nat := 0
  start : Time
  first : Bool
deriving DecidableEq

/-- The account after an action at the time. -/
def EpochAccount.after (now : Time) (a : EpochAccount) : SendAction Key Ct → EpochAccount
  | .emitted _ _ payload _ => { a with nonces := a.nonces + 1, bytes := a.bytes + payload.length }
  | .rekeyed _ => { start := now, first := false }
  | .dequeued _ _ => a
  | .recorded _ _ _ => a

/-- An action, when it was taken, and the account of the epoch it was taken in. -/
structure EpochEntry (Key Ct : Type) where
  time : Time
  account : EpochAccount
  action : SendAction Key Ct
deriving DecidableEq

/-- The actions of a call, each with the account at that point. -/
def epochEntries (now : Time) : EpochAccount → List (SendAction Key Ct) →
    List (EpochEntry Key Ct)
  | _, [] => []
  | a, action :: rest => ⟨now, a, action⟩ :: epochEntries now (a.after now action) rest

/-- The epoch is over: by its nonces, by its bytes or, but for the first one, by its age. -/
structure EpochAccount.Over (a : EpochAccount) (now : Time) : Prop where
  nonces_lt : a.nonces < u64Size
  bytes_lt : a.bytes < u64Size
  limit : rekeyNonceThreshold ≤ a.nonces ∨ rekeyBytesThreshold ≤ a.bytes ∨
    (a.first = false ∧ 0 < a.start ∧ rekeyEpochSeconds ≤ now - a.start)

/-- A data packet sent when the epoch is over is a rekey packet, and the rekey is next. -/
def EndsEpoch (entry : EpochEntry Key Ct) (rest : List (EpochEntry Key Ct)) : Prop :=
  match entry.action with
  | .emitted _ _ _ packet =>
    packet.prefixByte ≠ prefixKeepalive → entry.account.Over entry.time →
      packet.prefixByte = packetPrefixDataRekey ∧
        ∃ account key, rest.head? = some ⟨entry.time, account, .rekeyed key⟩
  | _ => True

/-- That, of every entry. -/
def EndsEpochs : List (EpochEntry Key Ct) → Prop
  | [] => True
  | entry :: rest => EndsEpoch entry rest ∧ EndsEpochs rest

theorem epochEntries_append (now : Time) (as bs : List (SendAction Key Ct)) :
    ∀ a : EpochAccount, epochEntries now a (as ++ bs) =
      epochEntries now a as ++ epochEntries now (run (EpochAccount.after now) a as) bs := by
  induction as with
  | nil => intro a; rfl
  | cons action rest ih =>
    intro a
    simp [epochEntries, ih]

theorem EndsEpoch.append {entry : EpochEntry Key Ct} {rest more : List (EpochEntry Key Ct)}
    (h : EndsEpoch entry rest) : EndsEpoch entry (rest ++ more) := by
  unfold EndsEpoch at h ⊢
  split
  · rename_i haction
    simp only [haction] at h
    intro hdata hover
    obtain ⟨hrekey, account, key, hnext⟩ := h hdata hover
    exact ⟨hrekey, account, key, by simp [List.head?_append, hnext]⟩
  · trivial

theorem EndsEpochs.append {as bs : List (EpochEntry Key Ct)} (ha : EndsEpochs as)
    (hb : EndsEpochs bs) : EndsEpochs (as ++ bs) := by
  induction as with
  | nil => exact hb
  | cons entry rest ih => exact ⟨ha.1.append, ih ha.2⟩

theorem EndsEpochs.entry {before after : List (EpochEntry Key Ct)} {entry : EpochEntry Key Ct}
    (h : EndsEpochs (before ++ entry :: after)) : EndsEpoch entry after := by
  induction before with
  | nil => exact h.1
  | cons x rest ih => exact ih h.2

/-! ### The account against the `KeyEpoch` -/

/-- The `KeyEpoch` counts what the account counts; it has no start for the first epoch. -/
structure Counts (a : EpochAccount) (e : KeyEpoch Key) : Prop where
  nonces : e.txNonceCounter = a.nonces % u64Size
  bytes : e.bytesTransmitted = a.bytes % u64Size
  start : e.epochStartTime = if a.first then 0 else a.start

theorem Counts.sameTransmit {a : EpochAccount} {e e' : KeyEpoch Key} (h : Counts a e)
    (hs : SameTransmit e e') : Counts a e' where
  nonces := (Prod.mk.inj hs.tx).2.trans h.nonces
  bytes := hs.bytesTransmitted.trans h.bytes
  start := hs.epochStartTime.trans h.start

theorem Counts.encrypted {a : EpochAccount} {e : KeyEpoch Key} (h : Counts a e) (bytes : Nat) :
    Counts { a with nonces := a.nonces + 1, bytes := a.bytes + bytes }
      { e with
        txNonceCounter := (e.txNonceCounter + 1) % u64Size
        bytesTransmitted := (e.bytesTransmitted + bytes) % u64Size } where
  nonces := by simp [h.nonces]
  bytes := by simp [h.bytes]
  start := h.start

theorem counts_activateRekey (C : Primitives Key Ct) (e : KeyEpoch Key) (now : Time) :
    Counts { start := now, first := false } (activateRekey C e now) :=
  ⟨rfl, rfl, rfl⟩

/-- **When the epoch is over, `should_rekey` sees it.** -/
theorem Counts.shouldRekey {a : EpochAccount} {e : KeyEpoch Key} {now : Time} (h : Counts a e)
    (hover : a.Over now) : shouldRekey e now = true := by
  have hnonces : e.txNonceCounter = a.nonces := h.nonces.trans (Nat.mod_eq_of_lt hover.nonces_lt)
  have hbytes : e.bytesTransmitted = a.bytes := h.bytes.trans (Nat.mod_eq_of_lt hover.bytes_lt)
  unfold Netudp.shouldRekey
  rcases hover.limit with hlimit | hlimit | ⟨hlater, hpos, hage⟩
  · simp [hnonces, hlimit]
  · simp [hbytes, hlimit]
  · have hstart : e.epochStartTime = a.start := by simpa [hlater] using h.start
    simp [hstart, hpos, hage]

/-! ### Calls -/

/-- A call that keeps the account in step with the `KeyEpoch`, and ends the epoch where it
is over. -/
structure Accounted (now : Time) (c : Connection Key) (acts : List (SendAction Key Ct))
    (c' : Connection Key) : Prop where
  active : c'.active = c.active
  counts : ∀ a, Counts a c.keyEpoch → Counts (run (EpochAccount.after now) a acts) c'.keyEpoch
  ends : ∀ a, Counts a c.keyEpoch → EndsEpochs (epochEntries now a acts)

theorem Accounted.quiet {now : Time} {c c' : Connection Key} {acts : List (SendAction Key Ct)}
    (hquiet : ∀ a ∈ acts, a.isQuiet = true) (ha : c'.active = c.active)
    (hk : c'.keyEpoch = c.keyEpoch) : Accounted now c acts c' := by
  have hsame : ∀ a, run (EpochAccount.after now) a acts = a ∧
      EndsEpochs (epochEntries now a acts) := by
    intro a
    induction acts with
    | nil => exact ⟨rfl, trivial⟩
    | cons action rest ih =>
      have hrest := ih fun x hx => hquiet x (List.mem_cons_of_mem action hx)
      have haction := hquiet action List.mem_cons_self
      cases action with
      | dequeued ch msg => exact ⟨hrest.1, trivial, hrest.2⟩
      | recorded ch seq data => exact ⟨hrest.1, trivial, hrest.2⟩
      | emitted key nonce payload packet => exact absurd haction Bool.false_ne_true
      | rekeyed key => exact absurd haction Bool.false_ne_true
  refine ⟨ha, fun a h => ?_, fun a _ => (hsame a).2⟩
  rw [(hsame a).1, hk]
  exact h

theorem Accounted.trans {now : Time} {c c' c'' : Connection Key}
    {as bs : List (SendAction Key Ct)} (h : Accounted now c as c') (h' : Accounted now c' bs c'') :
    Accounted now c (as ++ bs) c'' where
  active := h'.active.trans h.active
  counts a ha := by
    rw [run_append]
    exact h'.counts _ (h.counts a ha)
  ends a ha := by
    rw [epochEntries_append]
    exact (h.ends a ha).append (h'.ends _ (h.counts a ha))

/-- **Every call of the server keeps the account, and ends the epoch where it is over.** -/
theorem accounted_callKeeps (C : Primitives Key Ct) (pid : Nat) (now : Time) :
    CallKeeps (serverPath C pid) C pid now (Accounted now) where
  quiet hquiet h := Accounted.quiet hquiet h.active h.keyEpoch
  trans h h' := h.trans h'
  data {c c'} payload hs := by
    have ha := hs.active
    have hk := hs.keyEpoch
    simp only [serverPath] at hk ⊢
    obtain ⟨e₀, hsame, hnone | ⟨ct, e₁, he₁, ⟨hsome, hdue⟩ | hrekey⟩⟩ :=
      serverSealData_cases C pid now c.keyEpoch payload
    · rw [hnone] at hk ⊢
      refine ⟨ha, fun a h => ?_, fun a _ => trivial⟩
      rw [hk]
      exact h.sameTransmit hsame
    · have hnum : e₁.epochNumber = c.keyEpoch.epochNumber := (hsame.tx_succ he₁).2
      rw [hsome] at hk ⊢
      simp only [sealActions, rekeyedTo_of_eq hnum]
      refine ⟨ha, fun a h => ?_, fun a h => ⟨fun _ hover => ?_, trivial⟩⟩
      · rw [hk, he₁]
        exact (h.sameTransmit hsame).encrypted payload.length
      · -- No rekey was due, so the epoch is not over.
        rw [h.shouldRekey hover] at hdue
        exact absurd hdue.symm Bool.false_ne_true
    · have hnum : e₁.epochNumber = c.keyEpoch.epochNumber := (hsame.tx_succ he₁).2
      rw [hrekey] at hk ⊢
      simp only [sealActions, rekeyedTo_activateRekey C now hnum]
      refine ⟨ha, fun a h => ?_, fun a h => ⟨fun _ _ => ⟨rfl, _, _, rfl⟩, trivial, trivial⟩⟩
      rw [hk]
      exact counts_activateRekey C e₁ now
  keepalive {c c'} payload hs := by
    have ha := hs.active
    have hk := hs.keyEpoch
    rcases sealKeepalive_cases C pid c.keyEpoch payload with h | ⟨ct, h⟩
    · rw [h] at hk ⊢
      exact Accounted.quiet (by simp [sealActions]) ha hk
    · rw [h] at hk ⊢
      simp only [sealActions, rekeyedTo, if_true]
      refine ⟨ha, fun a hcounts => ?_, fun a _ => ⟨fun hdata => absurd rfl hdata, trivial⟩⟩
      rw [hk]
      exact hcounts.encrypted payload.length

/-- A received packet may rekey, and begins a new account if it does. -/
theorem serverHandleDataPacket_accounted (C : Primitives Key Ct) (pid : Nat) (now : Time)
    (c : Connection Key) (packet : Packet Ct) :
    Accounted now c
      (rekeyedTo c.keyEpoch (serverHandleDataPacket C pid now c packet).1.keyEpoch :
        List (SendAction Key Ct))
      (serverHandleDataPacket C pid now c packet).1 := by
  obtain ⟨hactive, e₀, hsame, hkept | hrekeyed⟩ :=
    serverHandleDataPacket_transmit C now pid c packet
  · rw [hkept, rekeyedTo_of_eq hsame.epochNumber]
    refine ⟨hactive, fun a h => ?_, fun a _ => trivial⟩
    rw [hkept]
    exact h.sameTransmit hsame
  · rw [hrekeyed, rekeyedTo_activateRekey C now hsame.epochNumber]
    refine ⟨hactive, fun a h => ?_, fun a _ => ⟨trivial, trivial⟩⟩
    rw [hrekeyed]
    exact counts_activateRekey C e₀ now

/-! ### Whole runs -/

/-- A slot, the account of its epoch, and everything it did. -/
structure EpochRun (Key Ct : Type) where
  conn : Connection Key
  account : EpochAccount
  log : List (EpochEntry Key Ct)

/-- A slot never used. -/
def EpochRun.start (C : Primitives Key Ct) : EpochRun Key Ct :=
  ⟨.idle C, { start := 0, first := true }, []⟩

/-- The account at the beginning of an event: a client that is accepted gets a new one. -/
def EpochRun.accountAt (r : EpochRun Key Ct) : Time × SlotEvent Key Ct → EpochAccount
  | (now, .accept _ _) => if r.conn.active then r.account else { start := now, first := true }
  | _ => r.account

/-- What the slot does at an event, with the rekey a received packet may cause. -/
def EpochRun.actions (C : Primitives Key Ct) (cfg : ServerConfig) (slot : Nat)
    (r : EpochRun Key Ct) : Time × SlotEvent Key Ct → List (SendAction Key Ct)
  | (now, .packet packet) =>
    if r.conn.active then
      rekeyedTo r.conn.keyEpoch
        (serverHandleDataPacket C cfg.protocolId now r.conn packet).1.keyEpoch
    else []
  | ev => (slotStep C cfg slot r.conn ev).2

/-- One event of the slot. -/
def epochStep (C : Primitives Key Ct) (cfg : ServerConfig) (slot : Nat) (r : EpochRun Key Ct)
    (ev : Time × SlotEvent Key Ct) : EpochRun Key Ct where
  conn := (slotStep C cfg slot r.conn ev).1
  account := run (EpochAccount.after ev.1) (r.accountAt ev) (r.actions C cfg slot ev)
  log := r.log ++ epochEntries ev.1 (r.accountAt ev) (r.actions C cfg slot ev)

/-- The account of a connection is its `KeyEpoch`'s, an idle slot has none, and every
epoch that was over has ended. -/
structure EpochsKept (r : EpochRun Key Ct) : Prop where
  counts : r.conn.active = true → Counts r.account r.conn.keyEpoch
  idle : r.conn.active = false →
    r.conn.keyEpoch.bytesTransmitted = 0 ∧ r.conn.keyEpoch.epochStartTime = 0
  ends : EndsEpochs r.log

section Runs

variable {C : Primitives Key Ct} {cfg : ServerConfig} {slot : Nat} {r : EpochRun Key Ct}
  {ev : Time × SlotEvent Key Ct}

theorem EpochsKept.still (h : EpochsKept r) (haccount : r.accountAt ev = r.account)
    (hacts : r.actions C cfg slot ev = []) (hconn : (slotStep C cfg slot r.conn ev).1 = r.conn) :
    EpochsKept (epochStep C cfg slot r ev) := by
  unfold epochStep
  rw [hacts, haccount, hconn]
  refine ⟨h.counts, h.idle, ?_⟩
  simpa [epochEntries] using h.ends

theorem EpochsKept.call (h : EpochsKept r) (hactive : r.conn.active = true)
    (haccount : r.accountAt ev = r.account)
    (hcall : Accounted ev.1 r.conn (r.actions C cfg slot ev) (slotStep C cfg slot r.conn ev).1) :
    EpochsKept (epochStep C cfg slot r ev) := by
  have hcounts := h.counts hactive
  unfold epochStep
  rw [haccount]
  refine ⟨fun _ => hcall.counts _ hcounts, fun hidle => ?_, h.ends.append (hcall.ends _ hcounts)⟩
  rw [hcall.active, hactive] at hidle
  exact absurd hidle.symm Bool.false_ne_true

theorem EpochsKept.reset (h : EpochsKept r) {c : Connection Key}
    (hconn : (slotStep C cfg slot r.conn ev).1 = c.reset C)
    (hends : EndsEpochs (epochEntries ev.1 (r.accountAt ev) (r.actions C cfg slot ev))) :
    EpochsKept (epochStep C cfg slot r ev) := by
  unfold epochStep
  rw [hconn]
  exact ⟨fun hactive => absurd hactive Bool.false_ne_true, fun _ => ⟨rfl, rfl⟩, h.ends.append hends⟩

theorem EpochsKept.accept (h : EpochsKept r) (hidle : r.conn.active = false) (now : Time)
    (from_ : Address) (token : PrivateConnectToken Key) :
    EpochsKept (epochStep C cfg slot r (now, .accept from_ token)) := by
  obtain ⟨hbytes, hstart⟩ := h.idle hidle
  have hcall := (accounted_callKeeps C cfg.protocolId now).serverSendAccept slot
    (r.conn.establish cfg now slot from_ token)
  have hcounts : Counts { start := now, first := true }
      (r.conn.establish cfg now slot from_ token).keyEpoch :=
    ⟨rfl, hbytes, hstart⟩
  have hconn : slotStep C cfg slot r.conn (now, .accept from_ token) =
      serverSendAccept C cfg now slot (r.conn.establish cfg now slot from_ token) := by
    simp [slotStep, hidle, serverAccept]
  simp only [epochStep, EpochRun.accountAt, EpochRun.actions, hconn, hidle]
  refine ⟨fun _ => hcall.counts _ hcounts, fun hended => ?_, h.ends.append (hcall.ends _ hcounts)⟩
  rw [hcall.active] at hended
  exact absurd hended.symm Bool.false_ne_true

theorem EpochsKept.packet (h : EpochsKept r) (hactive : r.conn.active = true) (now : Time)
    (packet : Packet Ct) : EpochsKept (epochStep C cfg slot r (now, .packet packet)) := by
  have hcall := serverHandleDataPacket_accounted C cfg.protocolId now r.conn packet
  have hacts : r.actions C cfg slot (now, .packet packet) = rekeyedTo r.conn.keyEpoch
      (serverHandleDataPacket C cfg.protocolId now r.conn packet).1.keyEpoch := by
    simp [EpochRun.actions, hactive]
  rw [← hacts] at hcall
  cases hres : serverHandleDataPacket C cfg.protocolId now r.conn packet with
  | mk c ended =>
    rw [hres] at hcall
    cases ended with
    | false =>
      refine h.call hactive rfl ?_
      simpa [slotStep, hactive, hres] using hcall
    | true =>
      exact h.reset (c := c) (by simp [slotStep, hactive, hres])
        (hcall.ends _ (h.counts hactive))

/-- A connection is updated: it times out, or is visited, or is not. -/
theorem EpochsKept.update (h : EpochsKept r) (hactive : r.conn.active = true) (now dt : Time)
    (visited : Bool) :
    EpochsKept (epochStep C cfg slot r (now, .update dt visited)) := by
  by_cases htimeout : r.conn.timedOut now = true
  · exact h.reset (c := r.conn) (by simp [slotStep, hactive, htimeout])
      (by simp [EpochRun.actions, slotStep, hactive, htimeout, epochEntries, EndsEpochs])
  · cases visited with
    | true =>
      refine h.call hactive rfl ?_
      simpa [EpochRun.actions, slotStep, hactive, htimeout] using
        (accounted_callKeeps C cfg.protocolId now).serverUpdateConnection dt r.conn
    | false =>
      exact h.still rfl (by simp [EpochRun.actions, slotStep, hactive, htimeout])
        (by simp [slotStep, hactive, htimeout])

theorem epochStep_kept (C : Primitives Key Ct) (cfg : ServerConfig) (slot : Nat)
    (r : EpochRun Key Ct) (ev : Time × SlotEvent Key Ct) (h : EpochsKept r) :
    EpochsKept (epochStep C cfg slot r ev) := by
  have hkeeps := fun now => accounted_callKeeps C cfg.protocolId now
  obtain ⟨now, ev⟩ := ev
  cases hactive : r.conn.active with
  | false =>
    -- Only an accepted client changes an idle slot.
    cases ev with
    | accept from_ token => exact h.accept hactive now from_ token
    | send channel data flags =>
      exact h.still rfl (by simp [EpochRun.actions, slotStep, serverSend, hactive])
        (by simp [slotStep, serverSend, hactive])
    | sendState channel entityId data =>
      exact h.still rfl rfl (by simp [slotStep, serverSendState, hactive])
    | flush =>
      exact h.still rfl (by simp [EpochRun.actions, slotStep, serverFlush, hactive])
        (by simp [slotStep, serverFlush, hactive])
    | packet packet =>
      exact h.still rfl (by simp [EpochRun.actions, hactive]) (by simp [slotStep, hactive])
    | update dt visited =>
      exact h.still rfl (by simp [EpochRun.actions, slotStep, hactive])
        (by simp [slotStep, hactive])
  | true =>
    cases ev with
    | accept from_ token =>
      exact h.still (by simp [EpochRun.accountAt, hactive])
        (by simp [EpochRun.actions, slotStep, hactive]) (by simp [slotStep, hactive])
    | send channel data flags =>
      exact h.call hactive rfl ((hkeeps now).serverSend r.conn channel data flags)
    | sendState channel entityId data =>
      exact h.call hactive rfl ((hkeeps now).serverSendState r.conn channel entityId data)
    | flush => exact h.call hactive rfl ((hkeeps now).serverFlush r.conn)
    | packet packet => exact h.packet hactive now packet
    | update dt visited => exact h.update hactive now dt visited

/--
**A data packet sent when the epoch is over is a rekey packet, and a new epoch begins
right after it**, in every run of a slot: when 2^30 nonces are used, when 2^30 bytes are
sent, and when an hour has passed since the rekey the epoch began with.
-/
theorem epoch_ends_at_limit (C : Primitives Key Ct) (cfg : ServerConfig) (slot : Nat)
    (es : List (Time × SlotEvent Key Ct)) (before after : List (EpochEntry Key Ct))
    (now : Time) (a : EpochAccount) (key : Key) (nonce : Nat) (payload : Bytes)
    (packet : Packet Ct)
    (hlog : (run (epochStep C cfg slot) (.start C) es).log =
      before ++ ⟨now, a, .emitted key nonce payload packet⟩ :: after)
    (hdata : packet.prefixByte ≠ prefixKeepalive)
    (hcount : a.nonces < u64Size ∧ a.bytes < u64Size)
    (hlimit : rekeyNonceThreshold ≤ a.nonces ∨ rekeyBytesThreshold ≤ a.bytes ∨
      (a.first = false ∧ 0 < a.start ∧ rekeyEpochSeconds ≤ now - a.start)) :
    packet.prefixByte = packetPrefixDataRekey ∧
      ∃ account key, after.head? = some ⟨now, account, .rekeyed key⟩ := by
  have hkept : EpochsKept (run (epochStep C cfg slot) (.start C) es) :=
    run_invariant' EpochsKept (epochStep_kept C cfg slot) es
      ⟨fun h => absurd h Bool.false_ne_true, fun _ => ⟨rfl, rfl⟩, trivial⟩
  have hends := hkept.ends
  rw [hlog] at hends
  exact hends.entry hdata ⟨hcount.1, hcount.2, hlimit⟩

end Runs

/-- A rekey packet of the client, its first packet. -/
def clientRekey : Packet (Sealed Nat) :=
  ⟨packetPrefixDataRekey, ⟨1, buildNonce 0, buildAad 7 packetPrefixDataRekey, List.replicate 8 0⟩⟩

/-- The client rekeys at time 2, and a message is sent more than an hour later. -/
def secondEpochRun : EpochRun Nat (Sealed Nat) :=
  run (epochStep toyCipher nagleConfig 0) (.start toyCipher)
    [(1, .accept {} toyToken), (2, .packet clientRekey), (3700, .send 0 [7] sendNoDelay)]

/-- The acknowledgement, of which only the delay is not zero, and the frame of the message. -/
def messagePayload (delay : UInt8) : Bytes := [0, 0, 0, 0, 0, 0, delay, delay, 3, 0, 1, 0, 7]

/-- Its packet is a rekey packet. -/
theorem second_epoch_ends :
    packetPrefixDataRekey = 0x0C ∧ ∃ account key,
      (secondEpochRun.log.drop 4).head? = some ⟨3700, account, .rekeyed key⟩ :=
  epoch_ends_at_limit toyCipher nagleConfig 0
    [(1, .accept {} toyToken), (2, .packet clientRekey), (3700, .send 0 [7] sendNoDelay)]
    (secondEpochRun.log.take 3) (secondEpochRun.log.drop 4) 3700 ⟨0, 0, 2, false⟩ 102 0
    (messagePayload 255) ⟨packetPrefixDataRekey,
      ⟨102, buildNonce 0, buildAad 7 packetPrefixDataRekey, messagePayload 255⟩⟩
    (by decide +kernel) (by decide) (by decide) (by decide +kernel)

/-- A message sent more than an hour after the client was accepted. -/
def firstEpochRun : EpochRun Nat (Sealed Nat) :=
  run (epochStep toyCipher nagleConfig 0) (.start toyCipher)
    [(1, .accept {} toyToken), (3701, .send 0 [7] sendNoDelay)]

/-- The first epoch is over an hour old, and its packet is not a rekey packet. -/
theorem first_epoch_never_ends :
    rekeyEpochSeconds ≤ 3701 - 1 ∧
    firstEpochRun.log.drop 2 = [⟨3701, ⟨1, 14, 1, true⟩, .emitted 2 1 (messagePayload 0)
      ⟨prefixData, ⟨2, buildNonce 1, buildAad 7 prefixData, messagePayload 0⟩⟩⟩] ∧
    firstEpochRun.conn.keyEpoch.epochNumber = 0 := by
  decide +kernel

end Netudp
