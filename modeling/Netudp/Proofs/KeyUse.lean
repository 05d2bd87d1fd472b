/-
What a connection encrypts with.

Every packet a connection emits is encrypted under the transmit key and the counter it
holds at that moment; the counter moves with each packet, and a rekey installs another
key and sets it to zero.  `Follows c acts c'` says that of a call that took `c` to `c'`
with the actions `acts`; it holds of sealing a packet, so it holds of every call that
sends.
-/
import Netudp.Proofs.Calls
import Netudp.Proofs.Endpoint
import Netudp.Proofs.Receive

namespace Netudp

open Lib

variable {Key Ct : Type}

/-- The transmit key and the counter of the next packet. -/
def KeyEpoch.tx (e : KeyEpoch Key) : Key × Nat := (e.txKey, e.txNonceCounter)

/-- The key and counter held after an action. -/
def keyAfter (held : Key × Nat) : SendAction Key Ct → Key × Nat
  | .emitted _ _ _ _ => (held.1, (held.2 + 1) % u64Size)
  | .rekeyed key => (key, 0)
  | .dequeued _ _ => held
  | .recorded _ _ _ => held

/-- A packet is encrypted with what is held. -/
def UsesHeld (held : Key × Nat) : SendAction Key Ct → Prop
  | .emitted key nonce _ _ => (key, nonce) = held
  | _ => True

/-- The actions take the connection from the key and counter of `c` to those of `c'`,
and each packet among them uses what is held when it is sent. -/
structure Follows (c : Connection Key) (acts : List (SendAction Key Ct)) (c' : Connection Key) :
    Prop where
  active : c'.active = c.active
  uses : Along keyAfter UsesHeld c.keyEpoch.tx acts
  after : run keyAfter c.keyEpoch.tx acts = c'.keyEpoch.tx

namespace Follows

variable {c c' c'' : Connection Key} {as bs : List (SendAction Key Ct)}

theorem of_eq (ha : c'.active = c.active) (hk : c'.keyEpoch.tx = c.keyEpoch.tx) :
    Follows c ([] : List (SendAction Key Ct)) c' :=
  ⟨ha, trivial, hk.symm⟩

theorem trans (h : Follows c as c') (h' : Follows c' bs c'') : Follows c (as ++ bs) c'' := by
  refine ⟨h'.active.trans h.active, ?_, ?_⟩
  · rw [along_append, h.after]
    exact ⟨h.uses, h'.uses⟩
  · rw [run_append, h.after, h'.after]

end Follows

/-! ### Sealing a packet -/

theorem rekeyedTo_of_eq {e e' : KeyEpoch Key} (h : e'.epochNumber = e.epochNumber) :
    (rekeyedTo e e' : List (SendAction Key Ct)) = [] :=
  if_pos h

theorem rekeyedTo_activateRekey (C : Primitives Key Ct) (now : Time) {e e' : KeyEpoch Key}
    (h : e'.epochNumber = e.epochNumber) :
    (rekeyedTo e (activateRekey C e' now) : List (SendAction Key Ct)) =
      [.rekeyed (activateRekey C e' now).txKey] := by
  refine if_neg ?_
  simp only [activateRekey, u32Size, h]
  omega

/-- Two epochs that send alike: they differ on the receiving side at most. -/
structure SameTransmit (e e' : KeyEpoch Key) : Prop where
  tx : e'.tx = e.tx
  bytesTransmitted : e'.bytesTransmitted = e.bytesTransmitted
  epochStartTime : e'.epochStartTime = e.epochStartTime
  epochNumber : e'.epochNumber = e.epochNumber

/-- What sealing data can do: nothing, beyond preparing a rekey; send a data packet when
no rekey is due or pending; or send a rekey packet and switch keys. -/
theorem serverSealData_cases (C : Primitives Key Ct) (pid : Nat) (now : Time) (e : KeyEpoch Key)
    (payload : Bytes) :
    ∃ e₀ : KeyEpoch Key, SameTransmit e e₀ ∧
      (serverSealData C pid now e payload = (none, e₀) ∨
      ∃ ct, ∃ e₁ : KeyEpoch Key,
        e₁ = { e₀ with
          txNonceCounter := (e₀.txNonceCounter + 1) % u64Size
          bytesTransmitted := (e₀.bytesTransmitted + payload.length) % u64Size } ∧
        ((serverSealData C pid now e payload = (some ⟨prefixData, ct⟩, e₁) ∧
            shouldRekey e now = false) ∨
          serverSealData C pid now e payload =
            (some ⟨packetPrefixDataRekey, ct⟩, activateRekey C e₁ now))) := by
  simp only [serverSealData]
  generalize he₀ : (if shouldRekey e now && !e.rekeyPending then prepareRekey e else e) = e₀
  have hsame : SameTransmit e e₀ := by
    rw [← he₀]
    split
    · exact ⟨rfl, rfl, rfl, rfl⟩
    · exact ⟨rfl, rfl, rfl, rfl⟩
  refine ⟨e₀, hsame, ?_⟩
  by_cases hpending : e₀.rekeyPending = true
  · simp only [hpending, if_true]
    rcases packetEncrypt_cases C e₀ pid packetPrefixDataRekey payload with h | ⟨ct, h⟩
    · exact Or.inl (by rw [h])
    · refine Or.inr ⟨ct, _, rfl, Or.inr ?_⟩
      rw [h]
      simp only [hpending, if_true]
  · -- Without a pending rekey none was due, or it would have been prepared.
    have hdue : shouldRekey e now = false := by
      rw [Bool.eq_false_iff]
      intro hdue
      apply hpending
      rw [← he₀, hdue]
      cases hold : e.rekeyPending with
      | false => rfl
      | true => exact hold
    simp only [if_neg hpending]
    rcases packetEncrypt_cases C e₀ pid prefixData payload with h | ⟨ct, h⟩
    · exact Or.inl (by rw [h])
    · refine Or.inr ⟨ct, _, rfl, Or.inl ⟨?_, hdue⟩⟩
      rw [h]
      simp only [if_neg hpending]

/-! ### Following the key -/

theorem Follows.quiet {c c' : Connection Key} {acts : List (SendAction Key Ct)}
    (hquiet : ∀ a ∈ acts, a.isQuiet = true) (ha : c'.active = c.active)
    (hk : c'.keyEpoch = c.keyEpoch) : Follows c acts c' := by
  have hstep : ∀ a : SendAction Key Ct, a.isQuiet = true →
      keyAfter c.keyEpoch.tx a = c.keyEpoch.tx ∧ UsesHeld c.keyEpoch.tx a := by
    intro a hquiet
    cases a with
    | dequeued ch msg => exact ⟨rfl, trivial⟩
    | recorded ch seq data => exact ⟨rfl, trivial⟩
    | emitted key nonce payload packet => exact absurd hquiet Bool.false_ne_true
    | rekeyed key => exact absurd hquiet Bool.false_ne_true
  induction acts with
  | nil => exact Follows.of_eq ha (by rw [hk])
  | cons a rest ih =>
    obtain ⟨hafter, huses⟩ := hstep a (hquiet a List.mem_cons_self)
    have hrest := ih fun x hx => hquiet x (List.mem_cons_of_mem a hx)
    refine ⟨ha, ⟨huses, ?_⟩, ?_⟩
    · rw [hafter]
      exact hrest.uses
    · rw [run_cons, hafter]
      exact hrest.after

theorem SameTransmit.tx_succ {e e₀ e₁ : KeyEpoch Key} {bytes : Nat} (h : SameTransmit e e₀)
    (he₁ : e₁ = { e₀ with
      txNonceCounter := (e₀.txNonceCounter + 1) % u64Size
      bytesTransmitted := (e₀.bytesTransmitted + bytes) % u64Size }) :
    e₁.tx = (e.txKey, (e.txNonceCounter + 1) % u64Size) ∧ e₁.epochNumber = e.epochNumber := by
  have htx : e₀.txKey = e.txKey ∧ e₀.txNonceCounter = e.txNonceCounter := Prod.mk.inj h.tx
  rw [he₁]
  exact ⟨by simp only [KeyEpoch.tx, htx.1, htx.2], h.epochNumber⟩

/-- **Every call of the server follows its actions.** -/
theorem follows_callKeeps (C : Primitives Key Ct) (pid : Nat) (now : Time) :
    CallKeeps (serverPath C pid) C pid now Follows where
  quiet hquiet h := Follows.quiet hquiet h.active h.keyEpoch
  trans h h' := h.trans h'
  data {c c'} payload h := by
    have ha := h.active
    have hk := h.keyEpoch
    simp only [serverPath] at hk ⊢
    obtain ⟨e₀, hsame, hnone | ⟨ct, e₁, he₁, ⟨hsome, -⟩ | hrekey⟩⟩ :=
      serverSealData_cases C pid now c.keyEpoch payload
    · rw [hnone] at hk ⊢
      exact Follows.of_eq ha (by rw [hk]; exact hsame.tx)
    · obtain ⟨htx, hnum⟩ := hsame.tx_succ he₁
      rw [hsome] at hk ⊢
      simp only [sealActions, rekeyedTo_of_eq hnum]
      refine ⟨ha, ⟨rfl, trivial⟩, ?_⟩
      rw [hk]
      exact htx.symm
    · obtain ⟨-, hnum⟩ := hsame.tx_succ he₁
      rw [hrekey] at hk ⊢
      simp only [sealActions, rekeyedTo_activateRekey C now hnum]
      refine ⟨ha, ⟨rfl, trivial, trivial⟩, ?_⟩
      rw [hk]
      rfl
  keepalive {c c'} payload hs := by
    have ha := hs.active
    have hk := hs.keyEpoch
    rcases sealKeepalive_cases C pid c.keyEpoch payload with h | ⟨ct, h⟩
    · rw [h] at hk ⊢
      exact Follows.of_eq ha (by rw [hk])
    · rw [h] at hk ⊢
      simp only [sealActions, rekeyedTo, if_true]
      refine ⟨ha, ⟨rfl, trivial⟩, ?_⟩
      rw [hk]
      rfl

/-! ### Receiving -/

section Receiving

variable (C : Primitives Key Ct) (now : Time)

theorem serverOpenPacket_transmit (pid : Nat) (e : KeyEpoch Key) (p : Packet Ct) :
    ∃ e₀ : KeyEpoch Key, SameTransmit e e₀ ∧
      ((serverOpenPacket C pid now e p).2 = e₀ ∨
        (serverOpenPacket C pid now e p).2 = activateRekey C e₀ now) := by
  -- Whatever was decrypted, only the first byte of the packet decides about a rekey.
  have hopened : ∀ e₁ : KeyEpoch Key, SameTransmit e e₁ →
      ∃ e₀ : KeyEpoch Key, SameTransmit e e₀ ∧
        (onPrefix C now e₁ p.prefixByte = e₀ ∨
          onPrefix C now e₁ p.prefixByte = activateRekey C e₀ now) := by
    intro e₁ h
    unfold onPrefix
    split
    · exact ⟨{ e₁ with oldRxKey := e₁.rxKey },
        ⟨h.tx, h.bytesTransmitted, h.epochStartTime, h.epochNumber⟩, Or.inr rfl⟩
    · exact ⟨e₁, h, Or.inl rfl⟩
  rcases serverOpenPacket_cases C pid now e p with ⟨pt, -, h⟩ | ⟨-, pt, e', hgrace, h⟩ | h
  · rw [h]
    exact hopened _ ⟨rfl, rfl, rfl, rfl⟩
  · rw [h]
    simp only [packetDecryptGrace] at hgrace
    split at hgrace
    · cases hgrace
    split at hgrace
    · cases hgrace
    split at hgrace
    · cases hgrace
    · obtain ⟨-, rfl⟩ := Prod.mk.inj hgrace
      exact hopened _ ⟨rfl, rfl, rfl, rfl⟩
  · rw [h]
    exact ⟨e, ⟨rfl, rfl, rfl, rfl⟩, Or.inl rfl⟩

theorem serverHandleDataPacket_transmit (pid : Nat) (c : Connection Key) (packet : Packet Ct) :
    (serverHandleDataPacket C pid now c packet).1.active = c.active ∧
      ∃ e₀ : KeyEpoch Key, SameTransmit c.keyEpoch e₀ ∧
        ((serverHandleDataPacket C pid now c packet).1.keyEpoch = e₀ ∨
          (serverHandleDataPacket C pid now c packet).1.keyEpoch = activateRekey C e₀ now) := by
  have hframes := applyFrames_cdata now (serverOpenFrames C pid now c packet).1
    (serverOpenFrames C pid now c packet).2
  have hopened : (serverHandleDataPacket C pid now c packet).1.keyEpoch =
      (serverOpenFrames C pid now c packet).1.keyEpoch := by
    rw [serverHandleDataPacket_eq, hframes]
  refine ⟨?_, ?_⟩
  · rw [serverHandleDataPacket_eq, hframes]
    exact (serverOpenFrames_eq C pid now c packet).2.1
  · rw [hopened]
    have hopen := serverOpenPacket_transmit C now pid c.keyEpoch packet
    simp only [serverOpenFrames]
    split
    · exact ⟨c.keyEpoch, ⟨rfl, rfl, rfl, rfl⟩, Or.inl rfl⟩
    · split
      · rename_i h
        rw [h] at hopen
        exact hopen
      · rename_i h
        rw [h] at hopen
        split
        · exact hopen
        · exact hopen

theorem serverHandleDataPacket_follows (pid : Nat) (c : Connection Key) (packet : Packet Ct) :
    Follows c
      (rekeyedTo c.keyEpoch (serverHandleDataPacket C pid now c packet).1.keyEpoch :
        List (SendAction Key Ct))
      (serverHandleDataPacket C pid now c packet).1 := by
  obtain ⟨hactive, e₀, hsame, hkept | hrekeyed⟩ :=
    serverHandleDataPacket_transmit C now pid c packet
  · rw [hkept, rekeyedTo_of_eq hsame.epochNumber]
    exact Follows.of_eq hactive (by rw [hkept]; exact hsame.tx)
  · rw [hrekeyed, rekeyedTo_activateRekey C now hsame.epochNumber]
    refine ⟨hactive, ⟨trivial, trivial⟩, ?_⟩
    rw [hrekeyed]
    rfl

end Receiving

end Netudp
