/-
Opening a genuine packet.

Neither endpoint reads a nonce off the wire.  Both decrypt with the nonce that
follows the newest one accepted, so an endpoint that has accepted the nonces below
`m` opens the packet of nonce `m` and no other.  `openPacket_genuine` is that fact
for both handlers at once, outside a grace window; every result about the link is
read off it.
-/
import Netudp.Client.Packet
import Netudp.Proofs.PacketCrypto

namespace Netudp

open Lib ReplayProtection

variable {Key Ct : Type} {C : Primitives Key Ct} {pid : Nat} {now : Time}

/-- The two ends of a connection. -/
inductive Endpoint where
  | server
  | client
deriving DecidableEq

/-- The decryption of the endpoint's packet handler. -/
def Endpoint.openPacket (C : Primitives Key Ct) (pid : Nat) (now : Time) :
    Endpoint → KeyEpoch Key → Packet Ct → Option Bytes × KeyEpoch Key
  | .server => serverOpenPacket C pid now
  | .client => clientOpenPacket C pid

/-- `p` is the packet of nonce `n` under `key`, carrying `pt`. -/
def Genuine (C : Primitives Key Ct) (pid : Nat) (key : Key) (n : Nat) (p : Packet Ct)
    (pt : Bytes) : Prop :=
  C.encrypt key (buildNonce n) (buildAad pid p.prefixByte) pt = some p.ct

/-! ### The nonce an endpoint expects -/

theorem serverExpectedNonce_eq {r : ReplayProtection} {m : Nat} (h : UpTo r m) :
    serverExpectedNonce r = m := by
  have hle := h.le
  unfold serverExpectedNonce
  by_cases hzero : m = 0
  · subst hzero
    have hmost := h.mostRecent_zero
    rw [if_pos ⟨hmost, (h.cell_zero hmost).mpr rfl⟩]
  · have hcond : ¬ (r.mostRecent = 0 ∧ r.received.get 0 = emptySlot) :=
      fun hc => hzero ((h.cell_zero hc.1).mp hc.2)
    obtain ⟨k, rfl⟩ := Nat.exists_eq_succ_of_ne_zero hzero
    rw [if_neg hcond, h.mostRecent_succ]
    refine Nat.mod_eq_of_lt ?_
    unfold windowSize at hle
    omega

theorem clientExpectedNonce_eq {r : ReplayProtection} {m : Nat} (h : UpTo r m) (hm : 0 < m) :
    clientExpectedNonce r = m := by
  have hle := h.le
  obtain ⟨k, rfl⟩ := Nat.exists_eq_succ_of_ne_zero (Nat.pos_iff_ne_zero.mp hm)
  unfold clientExpectedNonce
  rw [h.mostRecent_succ]
  refine Nat.mod_eq_of_lt ?_
  unfold windowSize at hle
  omega

/-! ### What it opens -/

theorem packetDecrypt_genuine (hC : C.Ideal) {e : KeyEpoch Key} {p : Packet Ct} {m n : Nat}
    {pt : Bytes} (hup : UpTo e.replay m) (hn : n < u64Size)
    (hp : Genuine C pid e.rxKey n p pt) :
    packetDecrypt C e pid p.prefixByte m p.ct =
      if n = m ∧ Unwrapped m then (some pt, e.received m) else (none, e) := by
  have hm : m < u64Size := by
    have := hup.le
    unfold windowSize at this
    omega
  by_cases hcond : n = m ∧ Unwrapped m
  · obtain ⟨rfl, hunw⟩ := hcond
    rw [if_pos ⟨rfl, hunw⟩]
    exact (packetDecrypt_sealed_iff hC hm hm hp).mpr
      ⟨hup.isDuplicate_next hunw, rfl, rfl, rfl, rfl, rfl⟩
  · rw [if_neg hcond]
    refine packetDecrypt_eq_none ?_
    by_contra hsome
    obtain ⟨q, hq⟩ := Option.ne_none_iff_exists'.mp hsome
    obtain ⟨hdup, -, hnm, -⟩ := (packetDecrypt_sealed_iff hC hn hm hp).mp (Prod.ext hq rfl)
    subst hnm
    have hwrap : ¬ Unwrapped m := fun hunw => hcond ⟨rfl, hunw⟩
    rw [hup.isDuplicate_wrap hwrap] at hdup
    exact Bool.noConfusion hdup

theorem packetDecryptGrace_closed {e : KeyEpoch Key} {n : Nat} {b : UInt8} {ct : Ct}
    (h : e.gracePacketsRemaining ≤ 0) : packetDecryptGrace C e pid b n ct = (none, e) := by
  unfold packetDecryptGrace
  by_cases hlen : C.ctLen ct < 1
  · rw [if_pos hlen]
  · rw [if_neg hlen, if_pos h]

theorem packetDecryptGrace_none {e e' : KeyEpoch Key} {n : Nat} {b : UInt8} {ct : Ct}
    (h : packetDecryptGrace C e pid b n ct = (none, e')) : e' = e := by
  unfold packetDecryptGrace at h
  split at h
  · exact (Prod.mk.inj h).2.symm
  · split at h
    · exact (Prod.mk.inj h).2.symm
    · split at h
      · exact (Prod.mk.inj h).2.symm
      · exact absurd (Prod.mk.inj h).1 (Option.some_ne_none _)

/-- The old key opens a packet only inside the grace window. -/
theorem packetDecryptGrace_some {e e' : KeyEpoch Key} {n : Nat} {b : UInt8} {ct : Ct}
    {pt : Bytes} (h : packetDecryptGrace C e pid b n ct = (some pt, e')) :
    0 < e.gracePacketsRemaining ∧
      C.decrypt e.oldRxKey (buildNonce n) (buildAad pid b) ct = some pt := by
  unfold packetDecryptGrace at h
  split at h
  · exact absurd (Prod.mk.inj h).1.symm (Option.some_ne_none _)
  · split at h
    · exact absurd (Prod.mk.inj h).1.symm (Option.some_ne_none _)
    · rename_i hgrace
      refine ⟨by omega, ?_⟩
      split at h
      · exact absurd (Prod.mk.inj h).1.symm (Option.some_ne_none _)
      · rename_i hdec
        rw [hdec]
        exact (Prod.mk.inj h).1

/-- Outside a grace window the server opens what `packet_decrypt` opens. -/
theorem serverOpenPacket_closed {e : KeyEpoch Key} {p : Packet Ct}
    (hgrace : e.gracePacketsRemaining ≤ 0) :
    serverOpenPacket C pid now e p =
      match packetDecrypt C e pid p.prefixByte (serverExpectedNonce e.replay) p.ct with
      | (some pt, e') => (some pt, onPrefix C now e' p.prefixByte)
      | (none, e') => (none, e') := by
  simp only [serverOpenPacket]
  cases hres : packetDecrypt C e pid p.prefixByte (serverExpectedNonce e.replay) p.ct with
  | mk res e' =>
    cases res with
    | some pt => rfl
    | none =>
      have he : e' = e := by
        have := packetDecrypt_none (h := congrArg Prod.fst hres)
        rwa [hres] at this
      simp only [he, packetDecryptGrace_closed hgrace]

/-- The three outcomes of the server's handler: the current key opens the packet, or
only the old one does, or neither. -/
theorem serverOpenPacket_cases (C : Primitives Key Ct) (pid : Nat) (now : Time)
    (e : KeyEpoch Key) (p : Packet Ct) :
    let n := serverExpectedNonce e.replay
    (∃ pt, packetDecrypt C e pid p.prefixByte n p.ct = (some pt, e.received n) ∧
      serverOpenPacket C pid now e p = (some pt, onPrefix C now (e.received n) p.prefixByte)) ∨
    ((packetDecrypt C e pid p.prefixByte n p.ct).1 = none ∧
      ∃ pt e', packetDecryptGrace C e pid p.prefixByte n p.ct = (some pt, e') ∧
        serverOpenPacket C pid now e p = (some pt, onPrefix C now e' p.prefixByte)) ∨
    serverOpenPacket C pid now e p = (none, e) := by
  intro n
  have hn : serverExpectedNonce e.replay = n := rfl
  simp only [serverOpenPacket, hn]
  clear_value n
  cases hres : packetDecrypt C e pid p.prefixByte n p.ct with
  | mk res e' =>
    cases res with
    | some pt =>
      obtain ⟨-, -, -, rfl⟩ := packetDecrypt_eq_some_iff.mp hres
      exact Or.inl ⟨pt, rfl, rfl⟩
    | none =>
      have he : e' = e := by
        have := packetDecrypt_none (h := congrArg Prod.fst hres)
        rwa [hres] at this
      subst he
      refine Or.inr ?_
      cases hgrace : packetDecryptGrace C e' pid p.prefixByte n p.ct with
      | mk res e'' =>
        cases res with
        | some pt => exact Or.inl ⟨rfl, pt, e'', rfl, by simp only [hgrace]⟩
        | none => exact Or.inr (by simp only [hgrace, packetDecryptGrace_none hgrace])

theorem onPrefix_of_ne {e : KeyEpoch Key} {b : UInt8} (h : b ≠ packetPrefixDataRekey) :
    onPrefix C now e b = e := by
  unfold onPrefix
  rw [if_neg h]

/--
**An endpoint opens the next packet and no other.**  Having accepted the nonces
below `m`, it opens a genuine packet exactly when its nonce is `m` and `m` is below
the wrap of the age test.  The client has accepted nonce zero when it connected.
-/
theorem openPacket_genuine (hC : C.Ideal) (ep : Endpoint) (now : Time) {e : KeyEpoch Key}
    {p : Packet Ct} {m n : Nat} {pt : Bytes} (hup : UpTo e.replay m) (hclient : ep = .client → 0 < m)
    (hgrace : e.gracePacketsRemaining ≤ 0) (hkind : p.prefixByte ≠ packetPrefixDataRekey)
    (hn : n < u64Size) (hp : Genuine C pid e.rxKey n p pt) :
    ep.openPacket C pid now e p =
      if n = m ∧ Unwrapped m then (some pt, e.received m) else (none, e) := by
  have hdec := packetDecrypt_genuine hC hup hn hp
  cases ep with
  | server =>
    show serverOpenPacket C pid now e p = _
    rw [serverOpenPacket_closed hgrace, serverExpectedNonce_eq hup, hdec]
    by_cases hcond : n = m ∧ Unwrapped m
    · simp only [if_pos hcond, onPrefix_of_ne hkind]
    · simp only [if_neg hcond]
  | client =>
    show clientOpenPacket C pid e p = _
    unfold clientOpenPacket
    rw [clientExpectedNonce_eq hup (hclient rfl), hdec]

end Netudp
