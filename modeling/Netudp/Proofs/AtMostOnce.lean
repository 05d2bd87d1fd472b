/-
Accepting a ciphertext at most once, across rekeys.

Within an epoch the replay window rejects every nonce it has seen, and a derived key
opens nothing an earlier key has sealed, so resetting the window with the key is
safe.  The grace path has neither protection: it tries the old key with whatever
nonce the reset window asks for and looks at no window at all.  The result here is
therefore about runs in which the old key opens nothing that the current key rejects.
-/
import Mathlib.Data.List.Duplicate
import Netudp.Proofs.Link

namespace Netudp

open Lib ReplayProtection

variable {Key Ct : Type} {C : Primitives Key Ct} {pid : Nat}

/-! ### The receiving side of one epoch -/

/-- A server's epoch, with the receive keys it has had and the ciphertexts it has
accepted, newest first. -/
structure Acceptor (Key Ct : Type) where
  epoch : KeyEpoch Key
  rxKeys : List Key
  accepted : List Ct

inductive AcceptorEvent (Ct : Type) where
  /-- Any packet the network presents, genuine, replayed or forged. -/
  | packet (p : Packet Ct) (now : Time)
  | prepareRekey
  | activateRekey (now : Time)

def acceptorStep (C : Primitives Key Ct) (pid : Nat) (s : Acceptor Key Ct) :
    AcceptorEvent Ct → Acceptor Key Ct
  | .packet p now =>
    match serverOpenPacket C pid now s.epoch p with
    | (none, e) => { s with epoch := e }
    | (some _, e) => ⟨e, e.rxKey :: s.rxKeys, p.ct :: s.accepted⟩
  | .prepareRekey => { s with epoch := prepareRekey s.epoch }
  | .activateRekey now =>
    let e := activateRekey C s.epoch now
    { s with epoch := e, rxKeys := e.rxKey :: s.rxKeys }

/-- A server before its first packet. -/
def Acceptor.start (e : KeyEpoch Key) : Acceptor Key Ct :=
  ⟨{ e with replay := .reset }, [e.rxKey], []⟩

/-- The receive key a rekey would derive. -/
def nextRxKey (C : Primitives Key Ct) (e : KeyEpoch Key) : Key :=
  deriveKey C e.rxKey ((e.epochNumber + 1) % u32Size)

/-- A rekey derives a receive key that was not used before. -/
def DerivesFresh (C : Primitives Key Ct) (s : Acceptor Key Ct) : AcceptorEvent Ct → Prop
  | .packet p _ => p.prefixByte = packetPrefixDataRekey → nextRxKey C s.epoch ∉ s.rxKeys
  | .prepareRekey => True
  | .activateRekey _ => nextRxKey C s.epoch ∉ s.rxKeys

/-- While the grace window is open, a packet that `packet_decrypt` rejects does not
open under the old key with the nonce the server expects. -/
def OldKeyOpensNothing (C : Primitives Key Ct) (pid : Nat) (s : Acceptor Key Ct) :
    AcceptorEvent Ct → Prop
  | .packet p _ =>
    let n := serverExpectedNonce s.epoch.replay
    0 < s.epoch.gracePacketsRemaining →
      (packetDecrypt C s.epoch pid p.prefixByte n p.ct).1 = none →
      C.decrypt s.epoch.oldRxKey (buildNonce n) (buildAad pid p.prefixByte) p.ct = none
  | .prepareRekey => True
  | .activateRekey _ => True

instance [DecidableEq Key] (s : Acceptor Key Ct) (ev) : Decidable (DerivesFresh C s ev) := by
  cases ev <;> dsimp only [DerivesFresh] <;> infer_instance

instance (s : Acceptor Key Ct) (ev) : Decidable (OldKeyOpensNothing C pid s ev) := by
  cases ev <;> dsimp only [OldKeyOpensNothing] <;> infer_instance

/-- `ct` was encrypted under some key and nonce. -/
def IsSealed (C : Primitives Key Ct) (ct : Ct) : Prop :=
  ∃ k n a pt, C.encrypt k n a pt = some ct

/-! ### The invariant -/

/-- The window covers what was accepted under the current key, every other accepted
ciphertext belongs to a key already given up, and none was accepted twice. -/
structure AcceptedOnce (C : Primitives Key Ct) (s : Acceptor Key Ct) (m : Nat) : Prop where
  window : UpTo s.epoch.replay m
  current : ∀ ct ∈ s.accepted, ∀ n a pt, C.encrypt s.epoch.rxKey n a pt = some ct →
    ∃ i, i < m ∧ n = buildNonce i
  held : s.epoch.rxKey ∈ s.rxKeys
  known : ∀ ct ∈ s.accepted, ∀ k n a pt, C.encrypt k n a pt = some ct → k ∈ s.rxKeys
  once : ∀ ct, IsSealed C ct → ¬ List.Duplicate ct s.accepted

theorem start_acceptedOnce (e : KeyEpoch Key) : AcceptedOnce C (Acceptor.start e) 0 where
  window := upTo_reset
  current := List.forall_mem_nil _
  held := List.mem_singleton.mpr rfl
  known := List.forall_mem_nil _
  once := fun _ _ hdup => absurd hdup.mem List.not_mem_nil

/-- A rekey to a fresh key may reset the window: nothing accepted so far opens
under the new key. -/
theorem AcceptedOnce.rekey {s : Acceptor Key Ct} {m : Nat} (h : AcceptedOnce C s m)
    {e : KeyEpoch Key} (hreplay : e.replay = .reset) (hfresh : e.rxKey ∉ s.rxKeys) :
    AcceptedOnce C ⟨e, e.rxKey :: s.rxKeys, s.accepted⟩ 0 where
  window := by
    show UpTo e.replay 0
    rw [hreplay]
    exact upTo_reset
  current := fun ct hct n a pt henc => absurd (h.known ct hct _ n a pt henc) hfresh
  held := List.mem_cons_self
  known := fun ct hct k n a pt henc => List.mem_cons_of_mem _ (h.known ct hct k n a pt henc)
  once := h.once

/-- What the current key opens is new, and is covered by the window afterwards. -/
theorem AcceptedOnce.accept (hC : C.Ideal) {s : Acceptor Key Ct} {m : Nat}
    (h : AcceptedOnce C s m) {p : Packet Ct} {pt : Bytes}
    (hdec : packetDecrypt C s.epoch pid p.prefixByte m p.ct = (some pt, s.epoch.received m)) :
    AcceptedOnce C ⟨s.epoch.received m, s.epoch.rxKey :: s.rxKeys, p.ct :: s.accepted⟩
      (m + 1) := by
  obtain ⟨-, hnotdup, hopen, -⟩ := packetDecrypt_eq_some_iff.mp hdec
  have hunw : Unwrapped m := by
    by_contra hwrap
    rw [h.window.isDuplicate_wrap hwrap] at hnotdup
    exact Bool.noConfusion hnotdup
  have hm : m < u64Size := by
    unfold Unwrapped at hunw
    omega
  -- The ciphertext, if any encryption made it, was made with this key and nonce `m`.
  have hmade : ∀ k n a q, C.encrypt k n a q = some p.ct →
      k = s.epoch.rxKey ∧ n = buildNonce m := by
    intro k n a q henc
    obtain ⟨hk, hn, -, -⟩ := (hC.opens henc).mp hopen
    exact ⟨hk.symm, hn.symm⟩
  refine ⟨h.window.advance hunw, ?_, List.mem_cons_self, ?_, ?_⟩
  · intro ct hct n a q henc
    rcases List.mem_cons.mp hct with rfl | hold
    · exact ⟨m, Nat.lt_succ_self m, (hmade _ n a q henc).2⟩
    · obtain ⟨i, hi, hn⟩ := h.current ct hold n a q henc
      exact ⟨i, Nat.lt_succ_of_lt hi, hn⟩
  · intro ct hct k n a q henc
    rcases List.mem_cons.mp hct with rfl | hold
    · rw [(hmade k n a q henc).1]
      exact List.mem_cons_self
    · exact List.mem_cons_of_mem _ (h.known ct hold k n a q henc)
  · intro ct hsealed hdup
    rcases List.duplicate_cons_iff.mp hdup with ⟨rfl, hold⟩ | hold
    · obtain ⟨k, n, a, q, henc⟩ := hsealed
      obtain ⟨hk, hn⟩ := hmade k n a q henc
      rw [hk] at henc
      obtain ⟨i, hi, hni⟩ := h.current _ hold n a q henc
      have him : i = m := by
        apply buildNonce_inj (by omega) hm
        rw [← hni, hn]
      omega
    · exact h.once ct hsealed hold

theorem acceptorStep_packet (hC : C.Ideal) {s : Acceptor Key Ct} {m : Nat}
    (h : AcceptedOnce C s m) {p : Packet Ct} {now : Time}
    (hfresh : DerivesFresh C s (.packet p now))
    (hold : OldKeyOpensNothing C pid s (.packet p now)) :
    ∃ m', AcceptedOnce C (acceptorStep C pid s (.packet p now)) m' := by
  have hexp := serverExpectedNonce_eq h.window
  rcases serverOpenPacket_cases C pid now s.epoch p with
    ⟨pt, hdec, hopen⟩ | ⟨hrej, pt, e', hgrace, -⟩ | hopen
  · simp only [acceptorStep, hopen]
    rw [hexp] at hdec ⊢
    have hacc := h.accept hC hdec
    by_cases hb : p.prefixByte = packetPrefixDataRekey
    · rw [show onPrefix C now (s.epoch.received m) p.prefixByte
          = onReceiveRekey C (s.epoch.received m) now from if_pos hb]
      -- The rekey resets the window once the packet has been recorded.
      have hnew : nextRxKey C s.epoch ∉ s.epoch.rxKey :: s.rxKeys := by
        intro hmem
        rcases List.mem_cons.mp hmem with heq | hmem
        · exact hfresh hb (heq ▸ h.held)
        · exact hfresh hb hmem
      have hre := hacc.rekey (e := onReceiveRekey C (s.epoch.received m) now) rfl hnew
      refine ⟨0, hre.window, hre.current, List.mem_cons_self, ?_, hre.once⟩
      intro ct hct k n a q henc
      rcases List.mem_cons.mp (hacc.known ct hct k n a q henc) with rfl | hk
      · exact List.mem_cons_of_mem _ h.held
      · exact List.mem_cons_of_mem _ hk
    · rw [onPrefix_of_ne hb]
      exact ⟨m + 1, hacc⟩
  · obtain ⟨hopen, hdecOld⟩ := packetDecryptGrace_some hgrace
    rw [hold hopen hrej] at hdecOld
    exact absurd hdecOld.symm (Option.some_ne_none pt)
  · simp only [acceptorStep, hopen]
    exact ⟨m, h⟩

theorem acceptorStep_acceptedOnce (hC : C.Ideal) {s : Acceptor Key Ct} {m : Nat}
    (h : AcceptedOnce C s m) {ev : AcceptorEvent Ct} (hfresh : DerivesFresh C s ev)
    (hold : OldKeyOpensNothing C pid s ev) :
    ∃ m', AcceptedOnce C (acceptorStep C pid s ev) m' := by
  cases ev with
  | packet p now => exact acceptorStep_packet hC h hfresh hold
  | prepareRekey => exact ⟨m, h.window, h.current, h.held, h.known, h.once⟩
  | activateRekey now => exact ⟨0, h.rekey (e := activateRekey C s.epoch now) rfl hfresh⟩

/--
**No ciphertext is accepted twice while the old key opens nothing.**  Whatever
packets are presented, in any interleaving with rekeys by either side to fresh keys,
a ciphertext made by an encryption occurs at most once among those accepted.
-/
theorem accepted_once_unless_grace (C : Primitives Key Ct) (hC : C.Ideal) (pid : Nat)
    (e : KeyEpoch Key) (es : List (AcceptorEvent Ct))
    (hfresh : Along (acceptorStep C pid) (DerivesFresh C) (Acceptor.start e) es)
    (hold : Along (acceptorStep C pid) (OldKeyOpensNothing C pid) (Acceptor.start e) es)
    (ct : Ct) (hct : IsSealed C ct) :
    ¬ List.Duplicate ct (run (acceptorStep C pid) (Acceptor.start e) es).accepted := by
  obtain ⟨m, hinv⟩ := run_invariant (fun s => ∃ m, AcceptedOnce C s m)
    (fun s ev hs hev => hs.elim fun m hm => acceptorStep_acceptedOnce hC hm hev.1 hev.2)
    ⟨0, start_acceptedOnce e⟩ (along_and.mpr ⟨hfresh, hold⟩)
  exact hinv.once ct hct

/-- The packet the client sealed first, with key 1. -/
def firstPacket : Packet (Sealed Nat) :=
  ⟨prefixData, ⟨1, buildNonce 0, buildAad 7 prefixData, [9]⟩⟩

/-- The first packet, a rekey, a packet of the new epoch: presented twice each, they
are accepted once. -/
theorem accepted_once_after_rekey :
    let second : Packet (Sealed Nat) :=
      ⟨prefixData, ⟨101, buildNonce 0, buildAad 7 prefixData, [8]⟩⟩
    let es : List (AcceptorEvent (Sealed Nat)) :=
      [.packet firstPacket 0, .packet firstPacket 0, .prepareRekey, .activateRekey 5,
        .packet second 6, .packet second 6, .packet firstPacket 6]
    ¬ List.Duplicate second.ct (run (acceptorStep toyCipher 7)
      (Acceptor.start (serverKeySetup toyCipher 1 2)) es).accepted := by
  intro second es
  exact accepted_once_unless_grace toyCipher toyCipher_ideal 7 (serverKeySetup toyCipher 1 2) es
    (by decide) (by decide) second.ct ⟨101, buildNonce 0, buildAad 7 prefixData, [8], rfl⟩

/-- Replayed after a rekey, the first packet is accepted again: the reset window
expects nonce zero, and the old key opens it. -/
theorem replay_accepted_in_grace :
    let es : List (AcceptorEvent (Sealed Nat)) :=
      [.packet firstPacket 0, .prepareRekey, .activateRekey 5, .packet firstPacket 6]
    Along (acceptorStep toyCipher 7) (DerivesFresh toyCipher)
        (Acceptor.start (serverKeySetup toyCipher 1 2)) es ∧
      IsSealed toyCipher firstPacket.ct ∧
      List.Duplicate firstPacket.ct (run (acceptorStep toyCipher 7)
        (Acceptor.start (serverKeySetup toyCipher 1 2)) es).accepted := by
  intro es
  refine ⟨by decide, ⟨1, buildNonce 0, buildAad 7 prefixData, [9], rfl⟩, ?_⟩
  exact List.Mem.duplicate_cons_self (List.mem_singleton.mpr rfl)

end Netudp
