/-
The packet functions, as specifications.

Everything above this file speaks about `packetEncrypt`, `packetDecrypt` and the
rekey functions through the lemmas here and never unfolds them: an encryption
returns the cipher's output and counts one nonce, a decryption succeeds exactly
when the window admits the nonce and the cipher opens the packet, and a decryption
that fails changes nothing.
-/
import Netudp.Lib.Run
import Netudp.Crypto.PacketCrypto
import Netudp.Proofs.Replay

namespace Netudp

open Lib ReplayProtection

variable {Key Ct : Type} {C : Primitives Key Ct} {e e' : KeyEpoch Key}
  {pid n : Nat} {b : UInt8} {ct : Ct} {pt : Bytes}

/-! ### The nonce and the associated data determine their inputs -/

theorem buildNonce_inj {m n : Nat} (hm : m < u64Size) (hn : n < u64Size)
    (h : buildNonce m = buildNonce n) : m = n :=
  leBytes_inj (w := 8) hm hn (List.append_cancel_right h)

theorem buildAad_inj {b b' : UInt8} (h : buildAad pid b = buildAad pid b') : b = b' := by
  simpa [buildAad] using h

/-! ### Encryption -/

/-- The epoch after one packet of `len` plaintext bytes has been encrypted. -/
def KeyEpoch.counted (e : KeyEpoch Key) (len : Nat) : KeyEpoch Key :=
  { e with
    txNonceCounter := (e.txNonceCounter + 1) % u64Size
    bytesTransmitted := (e.bytesTransmitted + len) % u64Size }

theorem packetEncrypt_of_some
    (h : C.encrypt e.txKey (buildNonce e.txNonceCounter) (buildAad pid b) pt = some ct) :
    packetEncrypt C e pid b pt = (some ct, e.counted pt.length) := by
  simp only [packetEncrypt, h]
  rfl

theorem packetEncrypt_ideal (hC : C.Ideal) (e : KeyEpoch Key) (pid : Nat) (b : UInt8)
    (pt : Bytes) :
    ∃ ct, C.encrypt e.txKey (buildNonce e.txNonceCounter) (buildAad pid b) pt = some ct ∧
      packetEncrypt C e pid b pt = (some ct, e.counted pt.length) := by
  obtain ⟨ct, hct⟩ := hC.encrypts e.txKey (buildNonce e.txNonceCounter) (buildAad pid b) pt
  exact ⟨ct, hct, packetEncrypt_of_some hct⟩

/-! ### Decryption -/

/-- The epoch after nonce `n` has been received. -/
def KeyEpoch.received (e : KeyEpoch Key) (n : Nat) : KeyEpoch Key :=
  { e with replay := e.replay.advance n }

theorem packetDecrypt_eq_some_iff :
    packetDecrypt C e pid b n ct = (some pt, e') ↔
      0 < C.ctLen ct ∧ e.replay.isDuplicate n = false ∧
        C.decrypt e.rxKey (buildNonce n) (buildAad pid b) ct = some pt ∧ e' = e.received n := by
  unfold packetDecrypt KeyEpoch.received
  by_cases hlen : C.ctLen ct < 1
  · have hzero : ¬ 0 < C.ctLen ct := by omega
    simp [hlen, hzero]
  · have hpos : 0 < C.ctLen ct := by omega
    rw [if_neg hlen]
    cases hdup : e.replay.isDuplicate n with
    | true => simp
    | false =>
      cases hdec : C.decrypt e.rxKey (buildNonce n) (buildAad pid b) ct with
      | none => simp
      | some p => simp [hpos, eq_comm]

theorem packetDecrypt_none (h : (packetDecrypt C e pid b n ct).1 = none) :
    (packetDecrypt C e pid b n ct).2 = e := by
  unfold packetDecrypt at h ⊢
  split
  · rfl
  · split
    · rfl
    · split
      · rfl
      · rename_i hlen hdup _ p hdec
        simp [hlen, hdup, hdec] at h

theorem packetDecrypt_eq_none (h : (packetDecrypt C e pid b n ct).1 = none) :
    packetDecrypt C e pid b n ct = (none, e) :=
  Prod.ext h (packetDecrypt_none h)

/-- What an ideal cipher accepts: the packet of this key, this nonce and this prefix. -/
theorem packetDecrypt_sealed_iff (hC : C.Ideal) {k : Key} {m : Nat} {b' : UInt8} {p : Bytes}
    (hm : m < u64Size) (hn : n < u64Size)
    (hct : C.encrypt k (buildNonce m) (buildAad pid b') p = some ct) :
    packetDecrypt C e pid b n ct = (some pt, e') ↔
      e.replay.isDuplicate n = false ∧ e.rxKey = k ∧ n = m ∧ b = b' ∧ pt = p ∧
        e' = e.received n := by
  have hlen : 0 < C.ctLen ct := by rw [hC.tag hct]; omega
  rw [packetDecrypt_eq_some_iff, hC.opens hct]
  constructor
  · rintro ⟨-, hdup, ⟨hk, hnonce, haad, hp⟩, he⟩
    exact ⟨hdup, hk, buildNonce_inj hn hm hnonce, buildAad_inj haad, hp, he⟩
  · rintro ⟨hdup, hk, rfl, rfl, hp, he⟩
    exact ⟨hlen, hdup, ⟨hk, rfl, rfl, hp⟩, he⟩

/-! ### The window over a run of decryptions -/

/-- The arguments of one `packet_decrypt` call. -/
structure DecryptCall (Ct : Type) where
  prefixByte : UInt8
  nonceCounter : Nat
  ct : Ct

/-- An epoch, with the nonces its decryptions have accepted. -/
structure Receiver (Key : Type) where
  epoch : KeyEpoch Key
  accepted : List Nat

/-- One call, and whether it was accepted. -/
def decryptStep (C : Primitives Key Ct) (pid : Nat) (s : Receiver Key) (c : DecryptCall Ct) :
    Receiver Key :=
  match packetDecrypt C s.epoch pid c.prefixByte c.nonceCounter c.ct with
  | (some _, e) => ⟨e, c.nonceCounter :: s.accepted⟩
  | (none, e) => ⟨e, s.accepted⟩

theorem decryptStep_window {s : Receiver Key} {c : DecryptCall Ct}
    (h : Window s.epoch.replay s.accepted) (hn : Unwrapped c.nonceCounter) :
    Window (decryptStep C pid s c).epoch.replay (decryptStep C pid s c).accepted := by
  unfold decryptStep
  cases hres : packetDecrypt C s.epoch pid c.prefixByte c.nonceCounter c.ct with
  | mk res e =>
    cases res with
    | none =>
      have he : e = s.epoch := by
        have := packetDecrypt_none (h := congrArg Prod.fst hres)
        rwa [hres] at this
      simp only [he]
      exact h
    | some p =>
      obtain ⟨-, hdup, -, rfl⟩ := packetDecrypt_eq_some_iff.mp hres
      exact h.advance hn hdup

/--
**The replay window is exact within an epoch.**  After any sequence of decryptions
with nonces below the wrap, whatever the cipher answered, the window rejects exactly
the accepted nonces and those at least 256 behind the newest, `mostRecent` is the
largest accepted nonce, and a call that fails changes nothing.
-/
theorem replay_exact (C : Primitives Key Ct) (pid : Nat) (e : KeyEpoch Key)
    (calls : List (DecryptCall Ct)) (hcalls : ∀ c ∈ calls, c.nonceCounter < 2 ^ 64 - 256) :
    let s := run (decryptStep C pid) ⟨{ e with replay := .reset }, []⟩ calls
    (∀ n, n < 2 ^ 64 - 256 → (s.epoch.replay.isDuplicate n = true ↔
      n ∈ s.accepted ∨ n + 256 ≤ s.epoch.replay.mostRecent)) ∧
    s.epoch.replay.mostRecent = s.accepted.foldr max 0 ∧
    ∀ c : DecryptCall Ct,
      (packetDecrypt C s.epoch pid c.prefixByte c.nonceCounter c.ct).1 = none →
      (packetDecrypt C s.epoch pid c.prefixByte c.nonceCounter c.ct).2 = s.epoch := by
  intro s
  have hunw : ∀ {n : Nat}, n < 2 ^ 64 - 256 → Unwrapped n := by
    intro n hn
    show n + 256 < 2 ^ 64
    omega
  have hwin : Window s.epoch.replay s.accepted := by
    have hal : Along (decryptStep C pid) (fun _ c => Unwrapped c.nonceCounter)
        ⟨{ e with replay := .reset }, []⟩ calls :=
      along_of_forall fun c hc => hunw (hcalls c hc)
    exact run_invariant (fun s : Receiver Key => Window s.epoch.replay s.accepted)
      (fun _ _ hs hc => decryptStep_window hs hc) window_reset hal
  exact ⟨fun n hn => isDuplicate_iff hwin (hunw hn), hwin.newest,
    fun c hc => packetDecrypt_none hc⟩

/-- The call that presents the packet of `key` and `nonce`. -/
def sealedCall (key : Nat) (nonce : Nat) : DecryptCall (Sealed Nat) :=
  ⟨0x14, nonce, ⟨key, buildNonce nonce, buildAad 7 0x14, [1]⟩⟩

/-- Nonce 3 arrives twice, a packet of another key in between, and 300 then pushes
the window past it: two packets are accepted, and 3 stays rejected. -/
theorem replay_exact_sample :
    let calls := [sealedCall 5 3, sealedCall 6 4, sealedCall 5 3, sealedCall 5 300]
    let s := run (decryptStep (symbolic (fun k _ => k + 1) 0) 7) ⟨⟨1, 5, 0, 0, 0, 0, 0, 0, false,
      .reset⟩, []⟩ calls
    s.accepted = [300, 3] ∧ s.epoch.replay.mostRecent = 300 ∧
      s.epoch.replay.isDuplicate 3 = true := by
  intro calls s
  have hacc : s.accepted = [300, 3] := by decide
  have hcalls : ∀ c ∈ calls, c.nonceCounter < 2 ^ 64 - 256 := by decide
  obtain ⟨hdup, hmax, -⟩ := replay_exact (symbolic (fun k _ => k + 1) 0) 7
    ⟨1, 5, 0, 0, 0, 0, 0, 0, false, .reset⟩ calls hcalls
  refine ⟨hacc, ?_, ?_⟩
  · rw [show s.epoch.replay.mostRecent = s.accepted.foldr max 0 from hmax, hacc]
    rfl
  · refine (hdup 3 (by decide)).mpr (Or.inl ?_)
    show 3 ∈ s.accepted
    rw [hacc]
    decide

end Netudp
