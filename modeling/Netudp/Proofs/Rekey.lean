/-
The rekey workflow over a lossless link.

One side, the initiator, sends data and rekeys; the other decrypts what arrives and
follows each rekey packet.  Any number of rekeys may be in flight, so the two epochs
agree only through the packets between them: `Carries` reads the link as the
sequence of stages it takes the receiver through, and the invariant is that it takes
the receiver's stage to the initiator's.  With nothing in flight the two are equal.
-/
import Netudp.Proofs.Link

namespace Netudp

open Lib ReplayProtection

variable {Key Ct : Type} {C : Primitives Key Ct} {pid : Nat} {now : Time}

/-! ### The system -/

/-- The initiator, the receiver, and the packets in flight, oldest first. -/
structure RekeyLink (Key Ct : Type) where
  initiator : KeyEpoch Key
  receiver : KeyEpoch Key
  flight : List (SentPacket Ct)

inductive RekeyEvent where
  | send (kind : PacketKind) (pt : Bytes)
  | rekey (pt : Bytes) (now : Time)
  /-- The oldest packet in flight reaches the receiver. -/
  | deliver (now : Time)

def RekeyLink.send (C : Primitives Key Ct) (pid : Nat) (l : RekeyLink Key Ct)
    (kind : PacketKind) (pt : Bytes) : RekeyLink Key Ct :=
  match packetEncrypt C l.initiator pid kind.prefixByte pt with
  | (none, e) => { l with initiator := e }
  | (some ct, e) =>
    { l with
      initiator := e
      flight := l.flight ++ [⟨l.initiator.txNonceCounter, ⟨kind.prefixByte, ct⟩⟩] }

/-- `prepare_rekey`, the rekey packet, `activate_rekey`. -/
def RekeyLink.rekey (C : Primitives Key Ct) (pid : Nat) (l : RekeyLink Key Ct) (pt : Bytes)
    (now : Time) : RekeyLink Key Ct :=
  match packetEncrypt C (prepareRekey l.initiator) pid packetPrefixDataRekey pt with
  | (none, e) => { l with initiator := e }
  | (some ct, e) =>
    { l with
      initiator := activateRekey C e now
      flight := l.flight ++ [⟨l.initiator.txNonceCounter, ⟨packetPrefixDataRekey, ct⟩⟩] }

/-- `packet_decrypt`, then `on_receive_rekey` when the packet says so. -/
def RekeyLink.deliver (C : Primitives Key Ct) (pid : Nat) (l : RekeyLink Key Ct) (now : Time) :
    RekeyLink Key Ct :=
  match l.flight with
  | [] => l
  | p :: rest =>
    match packetDecrypt C l.receiver pid p.packet.prefixByte p.nonce p.packet.ct with
    | (none, e) => { l with receiver := e, flight := rest }
    | (some _, e) =>
      { l with receiver := onPrefix C now e p.packet.prefixByte, flight := rest }

def rekeyStep (C : Primitives Key Ct) (pid : Nat) (l : RekeyLink Key Ct) :
    RekeyEvent → RekeyLink Key Ct
  | .send kind pt => l.send C pid kind pt
  | .rekey pt now => l.rekey C pid pt now
  | .deliver now => l.deliver C pid now

/-- What one side sends with the other receives with, in both directions. -/
structure Mirrored (a b : KeyEpoch Key) : Prop where
  forward : a.txKey = b.rxKey
  backward : a.rxKey = b.txKey
  epoch : a.epochNumber = b.epochNumber

/-- A packet that is delivered decrypts. -/
def Decrypts (C : Primitives Key Ct) (pid : Nat) (l : RekeyLink Key Ct) : RekeyEvent → Prop
  | .send _ _ => True
  | .rekey _ _ => True
  | .deliver _ => ∀ p rest, l.flight = p :: rest →
      (packetDecrypt C l.receiver pid p.packet.prefixByte p.nonce p.packet.ct).1.isSome = true

/-- The initiator encrypts with nonces below `2 ^ 64 - 256` only. -/
def SendsUnwrapped (l : RekeyLink Key Ct) : RekeyEvent → Prop
  | .send _ _ => l.initiator.txNonceCounter < 2 ^ 64 - 256
  | .rekey _ _ => l.initiator.txNonceCounter < 2 ^ 64 - 256
  | .deliver _ => True

instance (l : RekeyLink Key Ct) (ev) : Decidable (SendsUnwrapped l ev) := by
  cases ev <;> dsimp only [SendsUnwrapped] <;> infer_instance

/-! ### Stages

A stage is what the two sides of a direction have to agree on: the keys, the epoch
number, and the next nonce.  A packet takes one stage to the next.
-/

structure Stage (Key : Type) where
  key : Key
  backKey : Key
  epochNumber : Nat
  next : Nat

/-- The stage after a packet. -/
def Stage.after (C : Primitives Key Ct) (s : Stage Key) (prefixByte : UInt8) : Stage Key :=
  if prefixByte = packetPrefixDataRekey then
    let nextEpoch := (s.epochNumber + 1) % u32Size
    ⟨deriveKey C s.key nextEpoch, deriveKey C s.backKey nextEpoch, nextEpoch, 0⟩
  else { s with next := s.next + 1 }

/-- The stage a sender encrypts at. -/
def KeyEpoch.stage (e : KeyEpoch Key) : Stage Key :=
  ⟨e.txKey, e.rxKey, e.epochNumber, e.txNonceCounter⟩

/-- The receiver is at stage `s`: mirrored keys, and a window open to the nonces from `s.next`
on. -/
structure ReceivesAt (e : KeyEpoch Key) (s : Stage Key) : Prop where
  key : e.rxKey = s.key
  backKey : e.txKey = s.backKey
  epoch : e.epochNumber = s.epochNumber
  window : OpenFrom e.replay s.next

/-- The packet `p` is the one a sender at stage `s` encrypts. -/
structure SealedAt (C : Primitives Key Ct) (pid : Nat) (s : Stage Key) (p : SentPacket Ct) :
    Prop where
  nonce : p.nonce = s.next
  unwrapped : Unwrapped s.next
  genuine : ∃ pt, Genuine C pid s.key s.next p.packet pt

/-- The packets take stage `s` to stage `t`. -/
def Carries (C : Primitives Key Ct) (pid : Nat) : Stage Key → List (SentPacket Ct) →
    Stage Key → Prop
  | s, [], t => s = t
  | s, p :: rest, t => SealedAt C pid s p ∧ Carries C pid (s.after C p.packet.prefixByte) rest t

theorem Carries.concat {t : Stage Key} {p : SentPacket Ct} (hp : SealedAt C pid t p) :
    ∀ {s : Stage Key} {flight : List (SentPacket Ct)}, Carries C pid s flight t →
      Carries C pid s (flight ++ [p]) (t.after C p.packet.prefixByte) := by
  intro s flight
  induction flight generalizing s with
  | nil =>
    intro h
    have hst : s = t := h
    subst hst
    exact ⟨hp, rfl⟩
  | cons q rest ih => intro h; exact ⟨h.1, ih h.2⟩

/-! ### One step of each side -/

theorem counted_stage {e : KeyEpoch Key} (h : e.txNonceCounter < 2 ^ 64 - 256) (kind : PacketKind)
    (len : Nat) : (e.counted len).stage = e.stage.after C kind.prefixByte := by
  have hmod : (e.txNonceCounter + 1) % u64Size = e.txNonceCounter + 1 := by
    refine Nat.mod_eq_of_lt ?_
    unfold u64Size
    omega
  unfold Stage.after
  rw [if_neg kind.prefixByte_ne]
  show Stage.mk _ _ _ ((e.txNonceCounter + 1) % u64Size) = _
  rw [hmod]
  rfl

theorem activateRekey_stage (e : KeyEpoch Key) (len : Nat) (now : Time) :
    (activateRekey C ((prepareRekey e).counted len) now).stage
      = e.stage.after C packetPrefixDataRekey := rfl

theorem ReceivesAt.deliver (C : Primitives Key Ct) (now : Time) {e : KeyEpoch Key}
    {s : Stage Key} (h : ReceivesAt e s) (b : UInt8) :
    ReceivesAt (onPrefix C now (e.received s.next) b) (s.after C b) := by
  unfold onPrefix Stage.after
  by_cases hb : b = packetPrefixDataRekey
  · rw [if_pos hb, if_pos hb]
    refine ⟨?_, ?_, ?_, openFrom_reset⟩
    · show deriveKey C e.rxKey ((e.epochNumber + 1) % u32Size) = _
      rw [h.key, h.epoch]
    · show deriveKey C e.txKey ((e.epochNumber + 1) % u32Size) = _
      rw [h.backKey, h.epoch]
    · show (e.epochNumber + 1) % u32Size = _
      rw [h.epoch]
  · rw [if_neg hb, if_neg hb]
    exact ⟨h.key, h.backKey, h.epoch, h.window.advance⟩

theorem ReceivesAt.decrypts (hC : C.Ideal) {e : KeyEpoch Key} {s : Stage Key}
    {p : SentPacket Ct} (h : ReceivesAt e s) (hp : SealedAt C pid s p) :
    ∃ pt, packetDecrypt C e pid p.packet.prefixByte p.nonce p.packet.ct
      = (some pt, e.received s.next) := by
  obtain ⟨pt, hgen⟩ := hp.genuine
  have hlt : s.next < u64Size := by
    have := hp.unwrapped
    unfold Unwrapped at this
    omega
  rw [hp.nonce]
  exact ⟨pt, (packetDecrypt_sealed_iff hC hlt hlt hgen).mpr
    ⟨h.window s.next (Nat.le_refl _) hp.unwrapped, h.key, rfl, rfl, rfl, rfl⟩⟩

/-! ### The invariant -/

/-- The link takes the receiver's stage to the initiator's. -/
def InStep (C : Primitives Key Ct) (pid : Nat) (l : RekeyLink Key Ct) : Prop :=
  ∃ s, ReceivesAt l.receiver s ∧ Carries C pid s l.flight l.initiator.stage

theorem unwrapped_of_lt {n : Nat} (h : n < 2 ^ 64 - 256) : Unwrapped n := by
  show n + 256 < 2 ^ 64
  omega

theorem send_inStep (hC : C.Ideal) {l : RekeyLink Key Ct} (h : InStep C pid l)
    (kind : PacketKind) (pt : Bytes) (hw : l.initiator.txNonceCounter < 2 ^ 64 - 256) :
    InStep C pid (l.send C pid kind pt) := by
  obtain ⟨s, hrecv, hcar⟩ := h
  obtain ⟨ct, hct, henc⟩ := packetEncrypt_ideal hC l.initiator pid kind.prefixByte pt
  simp only [RekeyLink.send, henc]
  have hsealed : SealedAt C pid l.initiator.stage
      ⟨l.initiator.txNonceCounter, ⟨kind.prefixByte, ct⟩⟩ :=
    ⟨rfl, unwrapped_of_lt hw, pt, hct⟩
  refine ⟨s, hrecv, ?_⟩
  rw [counted_stage hw kind]
  exact hcar.concat hsealed

theorem rekey_inStep (hC : C.Ideal) {l : RekeyLink Key Ct} (h : InStep C pid l) (pt : Bytes)
    (now : Time) (hw : l.initiator.txNonceCounter < 2 ^ 64 - 256) :
    InStep C pid (l.rekey C pid pt now) := by
  obtain ⟨s, hrecv, hcar⟩ := h
  -- The rekey packet is still sealed with the initiator's current key.
  obtain ⟨ct, hct, henc⟩ :=
    packetEncrypt_ideal hC (prepareRekey l.initiator) pid packetPrefixDataRekey pt
  simp only [RekeyLink.rekey, henc]
  have hsealed : SealedAt C pid l.initiator.stage
      ⟨l.initiator.txNonceCounter, ⟨packetPrefixDataRekey, ct⟩⟩ :=
    ⟨rfl, unwrapped_of_lt hw, pt, hct⟩
  refine ⟨s, hrecv, ?_⟩
  rw [activateRekey_stage]
  exact hcar.concat hsealed

theorem deliver_inStep (hC : C.Ideal) {l : RekeyLink Key Ct} (h : InStep C pid l) (now : Time) :
    Decrypts C pid l (.deliver now) ∧ InStep C pid (l.deliver C pid now) := by
  obtain ⟨s, hrecv, hcar⟩ := h
  cases hfl : l.flight with
  | nil =>
    refine ⟨?_, ?_⟩
    · intro p rest hp
      rw [hfl] at hp
      exact absurd hp (List.cons_ne_nil p rest).symm
    · simp only [RekeyLink.deliver, hfl]
      exact ⟨s, hrecv, hcar⟩
  | cons p rest =>
    rw [hfl] at hcar
    obtain ⟨pt, hdec⟩ := hrecv.decrypts hC hcar.1
    refine ⟨?_, ?_⟩
    · intro q rest' hq
      rw [hfl] at hq
      obtain ⟨hpq, -⟩ := List.cons.inj hq
      rw [← hpq, hdec]
      rfl
    · simp only [RekeyLink.deliver, hfl, hdec]
      exact ⟨_, hrecv.deliver C now _, hcar.2⟩

theorem step_inStep (hC : C.Ideal) {l : RekeyLink Key Ct} (h : InStep C pid l)
    {ev : RekeyEvent} (hw : SendsUnwrapped l ev) :
    Decrypts C pid l ev ∧ InStep C pid (rekeyStep C pid l ev) := by
  cases ev with
  | send kind pt => exact ⟨trivial, send_inStep hC h kind pt hw⟩
  | rekey pt now => exact ⟨trivial, rekey_inStep hC h pt now hw⟩
  | deliver now => exact deliver_inStep hC h now

theorem InStep.mirrored {l : RekeyLink Key Ct} (h : InStep C pid l) (hnil : l.flight = []) :
    Mirrored l.initiator l.receiver := by
  obtain ⟨s, hrecv, hcar⟩ := h
  rw [hnil] at hcar
  have hs : s = l.initiator.stage := hcar
  subst hs
  exact ⟨hrecv.key.symm, hrecv.backKey.symm, hrecv.epoch.symm⟩

/--
**The rekey workflow keeps two epochs mirrored.**  From mirrored epochs whose receiver
rejects no nonce from the initiator's counter on, every packet delivered in a run of sends,
rekeys and deliveries decrypts, and whenever nothing is in flight the epochs are mirrored
again, as long as no epoch uses up its nonces.
-/
theorem rekey_keeps_mirrored (C : Primitives Key Ct) (hC : C.Ideal) (pid : Nat)
    (a b : KeyEpoch Key) (hm : Mirrored a b) (hfresh : OpenFrom b.replay a.txNonceCounter)
    (es : List RekeyEvent) (hw : Along (rekeyStep C pid) SendsUnwrapped ⟨a, b, []⟩ es) :
    Along (rekeyStep C pid) (Decrypts C pid) ⟨a, b, []⟩ es ∧
      ((run (rekeyStep C pid) ⟨a, b, []⟩ es).flight = [] →
        Mirrored (run (rekeyStep C pid) ⟨a, b, []⟩ es).initiator
          (run (rekeyStep C pid) ⟨a, b, []⟩ es).receiver) := by
  have hstart : InStep C pid ⟨a, b, []⟩ :=
    ⟨a.stage, ⟨hm.forward.symm, hm.backward.symm, hm.epoch.symm, hfresh⟩, rfl⟩
  refine ⟨along_of_invariant (InStep C pid) (fun l ev h hev => step_inStep hC h hev) hstart hw, ?_⟩
  exact (run_invariant (InStep C pid) (fun l ev h hev => (step_inStep hC h hev).2)
    hstart hw).mirrored

/-- A packet before a rekey, the rekey and a packet after it, all in flight together,
are decrypted in turn, and the sides meet in epoch one. -/
theorem rekey_keeps_mirrored_across_epochs :
    let start : RekeyLink Nat (Sealed Nat) :=
      ⟨clientKeySetup toyCipher 1 2, serverKeySetup toyCipher 1 2, []⟩
    let es : List RekeyEvent :=
      [.send .data [1], .rekey [2] 5, .send .data [3], .deliver 6, .deliver 6, .deliver 7]
    Along (rekeyStep toyCipher 7) (Decrypts toyCipher 7) start es ∧
      Mirrored (run (rekeyStep toyCipher 7) start es).initiator
        (run (rekeyStep toyCipher 7) start es).receiver ∧
      (run (rekeyStep toyCipher 7) start es).receiver.epochNumber = 1 := by
  intro start es
  have hmain := rekey_keeps_mirrored toyCipher toyCipher_ideal 7 (clientKeySetup toyCipher 1 2)
    (serverKeySetup toyCipher 1 2) ⟨rfl, rfl, rfl⟩ openFrom_reset es (by decide)
  exact ⟨hmain.1, hmain.2 rfl, by decide⟩

/-! ### The end of an epoch's nonces -/

/-- A packet that is delivered before the next is sent. -/
def exchange : List RekeyEvent :=
  [.send .data [], .deliver 0]

theorem exchange_once (hC : C.Ideal) {l : RekeyLink Key Ct} (h : InStep C pid l)
    (hnil : l.flight = []) (hw : l.initiator.txNonceCounter < 2 ^ 64 - 256) :
    InStep C pid ((l.send C pid .data []).deliver C pid 0) ∧
      ((l.send C pid .data []).deliver C pid 0).flight = [] ∧
      ((l.send C pid .data []).deliver C pid 0).initiator.txNonceCounter
        = l.initiator.txNonceCounter + 1 ∧
      l.initiator.txNonceCounter
        ≤ ((l.send C pid .data []).deliver C pid 0).receiver.replay.mostRecent := by
  refine ⟨(deliver_inStep hC (send_inStep hC h .data [] hw) 0).2, ?_⟩
  obtain ⟨s, hrecv, hcar⟩ := h
  rw [hnil] at hcar
  have hs : s = l.initiator.stage := hcar
  subst hs
  obtain ⟨ct, hct, henc⟩ := packetEncrypt_ideal hC l.initiator pid prefixData []
  obtain ⟨pt, hdec⟩ := hrecv.decrypts hC
    (p := ⟨l.initiator.txNonceCounter, ⟨prefixData, ct⟩⟩) ⟨rfl, unwrapped_of_lt hw, [], hct⟩
  have hcount : (l.initiator.counted 0).txNonceCounter = l.initiator.txNonceCounter + 1 := by
    refine Nat.mod_eq_of_lt ?_
    unfold u64Size
    omega
  simp only [RekeyLink.send, PacketKind.prefixByte, henc, hnil, List.nil_append,
    RekeyLink.deliver, List.length_nil, hdec]
  refine ⟨trivial, hcount, ?_⟩
  rw [onPrefix, if_neg (by decide)]
  exact le_mostRecent_advance l.receiver.replay _

theorem run_exchanges (hC : C.Ideal) {l : RekeyLink Key Ct} (h : InStep C pid l)
    (hnil : l.flight = []) :
    ∀ n, l.initiator.txNonceCounter + n ≤ 2 ^ 64 - 256 →
      let r := run (rekeyStep C pid) l (rounds n exchange)
      InStep C pid r ∧ r.flight = [] ∧
        r.initiator.txNonceCounter = l.initiator.txNonceCounter + n ∧
        (0 < n → l.initiator.txNonceCounter + n ≤ r.receiver.replay.mostRecent + 1) := by
  intro n
  induction n with
  | zero => intro _; exact ⟨h, hnil, rfl, fun hpos => absurd hpos (Nat.lt_irrefl 0)⟩
  | succ n ih =>
    intro hn
    obtain ⟨hin, hfl, hctr, -⟩ := ih (by omega)
    obtain ⟨hin', hfl', hctr', hmost⟩ := exchange_once hC hin hfl (by omega)
    rw [rounds_succ, run_append]
    rw [hctr] at hctr' hmost
    exact ⟨hin', hfl', hctr', fun _ => Nat.succ_le_succ hmost⟩

/-- The packet of nonce `2 ^ 64 - 256` is rejected: the age test wraps on it. -/
theorem exchange_rejected (hC : C.Ideal) {l : RekeyLink Key Ct} (hnil : l.flight = [])
    (hw : l.initiator.txNonceCounter = 2 ^ 64 - 256)
    (hmost : windowSize ≤ l.receiver.replay.mostRecent) :
    ¬ Decrypts C pid (l.send C pid .data []) (.deliver 0) := by
  obtain ⟨ct, -, henc⟩ := packetEncrypt_ideal hC l.initiator pid prefixData []
  intro hopen
  have hsome := hopen ⟨2 ^ 64 - 256, ⟨prefixData, ct⟩⟩ [] (by
    simp only [RekeyLink.send, PacketKind.prefixByte, henc, hnil, hw, List.nil_append])
  simp only [RekeyLink.send, PacketKind.prefixByte, henc] at hsome
  obtain ⟨pt, hpt⟩ := Option.isSome_iff_exists.mp hsome
  obtain ⟨-, hdup, -⟩ := packetDecrypt_eq_some_iff.mp (Prod.ext hpt rfl)
  have hwrap : (2 ^ 64 - 256 + windowSize) % u64Size = 0 := by decide
  rw [isDuplicate, hwrap, if_pos ⟨hmost, Nat.zero_le _⟩] at hdup
  cases hdup

/-- A sender that gets there finds it rejected. -/
theorem exchanges_rejected (hC : C.Ideal) {l : RekeyLink Key Ct} (h : InStep C pid l)
    (hnil : l.flight = []) {n : Nat} (hn : l.initiator.txNonceCounter + n = 2 ^ 64 - 256)
    (hmany : windowSize < n) :
    ¬ Along (rekeyStep C pid) (Decrypts C pid) l (rounds (n + 1) exchange) := by
  obtain ⟨-, hfl, hctr, hmost⟩ := run_exchanges hC h hnil n (Nat.le_of_eq hn)
  rw [rounds_succ, along_append]
  intro hal
  exact exchange_rejected hC hfl (hctr.trans hn) (by omega) hal.2.2.1

/-- The receiver has accepted nonce 0, by whatever packet. -/
def usedEpoch : KeyEpoch Nat := (serverKeySetup toyCipher 1 2).received 0

/-- An epoch of `2 ^ 64 - 255` packets: the last one does not decrypt.  Nor does the first of a
sender whose next nonce the receiver has accepted. -/
theorem rekey_link_rejects_at_wrap :
    (Mirrored (clientKeySetup toyCipher 1 2) (serverKeySetup toyCipher 1 2) ∧
      ¬ Along (rekeyStep toyCipher 7) (Decrypts toyCipher 7)
        ⟨clientKeySetup toyCipher 1 2, serverKeySetup toyCipher 1 2, []⟩
        (rounds (2 ^ 64 - 256 + 1) exchange)) ∧
    (Mirrored (clientKeySetup toyCipher 1 2) usedEpoch ∧
      ¬ Along (rekeyStep toyCipher 7) (Decrypts toyCipher 7)
        ⟨clientKeySetup toyCipher 1 2, usedEpoch, []⟩ exchange) := by
  refine ⟨⟨⟨rfl, rfl, rfl⟩, ?_⟩, ⟨rfl, rfl, rfl⟩, fun hal => ?_⟩
  · have hstart : InStep toyCipher 7
        ⟨clientKeySetup toyCipher 1 2, serverKeySetup toyCipher 1 2, []⟩ :=
      ⟨(clientKeySetup toyCipher 1 2).stage, ⟨rfl, rfl, rfl, openFrom_reset⟩, rfl⟩
    exact exchanges_rejected toyCipher_ideal hstart rfl (by decide) (by decide)
  · exact absurd (hal.2.1 _ _ rfl) (by decide)

end Netudp
