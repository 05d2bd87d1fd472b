/-
Acknowledgements between two peers.

Two trackers exchange packets over a network that loses, repeats and reorders them.  A
packet built after its sender received something names packets its sender received, and
so it can only acknowledge what arrived.  A packet built before that carries the fields
of a fresh tracker, which name packet 0: it acknowledges packet 0 of a peer that still
has a record of it, or that has sent nothing and whose first record is all zero.
-/
import Netudp.Proofs.AckBits
import Netudp.Proofs.PacketTracker

namespace Netudp

open Lib

/-! ### The system -/

/-- A packet on its way, and whether its sender had received anything when it was
sent. -/
structure PeerPacket where
  sequence : Nat
  fields : AckFields
  answers : Bool

/-- A tracker with the packets it has sent, the sequences it has received, oldest first,
and the total of what its `process_acks` returned. -/
structure Peer where
  tracker : PacketTracker
  sent : List PeerPacket
  received : List Nat
  newlyAcked : Nat

namespace Peer

def start : Peer := ⟨.reset, [], [], 0⟩

/-- Send a packet with the tracker's sequence and acknowledgement. -/
def send (p : Peer) (time : Time) : Peer :=
  { p with
    tracker := p.tracker.sendPacket time
    sent := p.sent ++
      [⟨p.tracker.sendSequence, p.tracker.buildAckFields time, p.tracker.receivedAny⟩] }

/-- Receive a packet: `process_acks`, then `on_packet_received`. -/
def receive (p : Peer) (packet : PeerPacket) (time : Time) : Peer :=
  { p with
    tracker := (p.tracker.processAcks packet.fields).2.onPacketReceived packet.sequence time
    received := p.received ++ [packet.sequence]
    newlyAcked := p.newlyAcked + (p.tracker.processAcks packet.fields).1 }

end Peer

/-- The two ends. -/
inductive PeerName where
  | a
  | b
deriving DecidableEq

def PeerName.other : PeerName → PeerName
  | .a => .b
  | .b => .a

structure Peers where
  a : Peer
  b : Peer

namespace Peers

def start : Peers := ⟨.start, .start⟩

def get (s : Peers) : PeerName → Peer
  | .a => s.a
  | .b => s.b

def set (s : Peers) : PeerName → Peer → Peers
  | .a, p => { s with a := p }
  | .b, p => { s with b := p }

end Peers

/-- A peer sends a packet, or one of the packets the other has ever sent arrives. -/
inductive PeerEvent where
  | send (who : PeerName) (time : Time)
  | arrive (who : PeerName) (k : Nat) (time : Time)

/-- One event of the network. -/
def peersStep (s : Peers) : PeerEvent → Peers
  | .send who time => s.set who ((s.get who).send time)
  | .arrive who k time =>
    match (s.get who.other).sent[k]? with
    | none => s
    | some packet => s.set who ((s.get who).receive packet time)

/-- The fields of `packet` do no harm to `p`: its sender `q` had received something, or
packet 0 is not open to be marked, or it has been sent and received. -/
def HarmlessTo (p q : Peer) (packet : PeerPacket) : Prop :=
  packet.answers = true ∨ (p.tracker.markAcked 0).1 = false ∨
    0 < p.sent.length ∧ 0 ∈ q.received
deriving Decidable

/-- A packet sent before its sender received anything arrives only where it does no
harm. -/
def DefaultAckHarmless (s : Peers) : PeerEvent → Prop
  | .send _ _ => True
  | .arrive who k _ =>
    ∀ packet ∈ (s.get who.other).sent[k]?, HarmlessTo (s.get who) (s.get who.other) packet

instance (s : Peers) : ∀ e, Decidable (DefaultAckHarmless s e)
  | .send _ _ => isTrue trivial
  | .arrive _ _ _ => inferInstanceAs (Decidable (∀ packet ∈ _, _))

@[simp] theorem Peers.get_set_self (s : Peers) (who : PeerName) (p : Peer) :
    (s.set who p).get who = p := by
  cases who <;> rfl

@[simp] theorem Peers.get_set_other (s : Peers) (who : PeerName) (p : Peer) :
    (s.set who p).get who.other = s.get who.other := by
  cases who <;> rfl

@[simp] theorem PeerName.other_other (who : PeerName) : who.other.other = who := by
  cases who <;> rfl

theorem PeerName.eq_or_eq_other (x who : PeerName) : x = who ∨ x = who.other := by
  cases x <;> cases who <;> decide

/-! ### What a tracker's acknowledgement names -/

/-- Every set bit belongs to a packet that was received. -/
def BitsSound (got : List Nat) (n : Nat) (bits : BitVec 32) : Prop :=
  ∀ N < 32, bits.getLsbD N = true → ∃ j ∈ got, j + N + 1 = n

/-- What the tracker would acknowledge, against the packets it has received. -/
structure Hears (got : List Nat) (t : PacketTracker) : Prop where
  silent : t.receivedAny = false → t.recvAck = 0 ∧ t.recvAckBits = 0
  ack : t.receivedAny = true → t.recvAck ∈ got
  bits : t.receivedAny = true → BitsSound got t.recvAck t.recvAckBits

variable {got : List Nat} {t : PacketTracker} {n i bound : Nat} {time : Time}

theorem hears_reset : Hears [] .reset :=
  ⟨fun _ => ⟨rfl, rfl⟩, fun h => absurd h Bool.false_ne_true, fun h => absurd h Bool.false_ne_true⟩

theorem Hears.congr {t' : PacketTracker} (h : Hears got t) (hs : t.SameCounters t') :
    Hears got t' := by
  refine ⟨?_, ?_, ?_⟩
  · rw [hs.receivedAny, hs.recvAck, hs.recvAckBits]
    exact h.silent
  · rw [hs.receivedAny, hs.recvAck]
    exact h.ack
  · rw [hs.receivedAny, hs.recvAck, hs.recvAckBits]
    exact h.bits

theorem bitsSound_newer {bits : BitVec 32} (hn : n ∈ got) (h : BitsSound got n bits) (hlt : n < i) :
    BitsSound (got ++ [i]) i
      (if i - n < 32 then (bits <<< (i - n)) ||| BitVec.twoPow 32 (i - n - 1) else 0) := by
  intro N hN hbit
  by_cases hs : i - n < 32
  · rw [if_pos hs] at hbit
    rcases (getLsbD_shift_in bits (by omega) hN).mp hbit with heq | ⟨hle, hold⟩
    · exact ⟨n, List.mem_append_left _ hn, by omega⟩
    · obtain ⟨j, hj, hjN⟩ := h _ (by omega) hold
      exact ⟨j, List.mem_append_left _ hj, by omega⟩
  · rw [if_neg hs] at hbit
    exact absurd hbit (by simp)

theorem bitsSound_older {bits : BitVec 32} (h : BitsSound got n bits) :
    BitsSound (got ++ [i]) n
      (if i < n ∧ n < i + 32 then bits ||| BitVec.twoPow 32 (n - i - 1) else bits) := by
  have hold : ∀ N < 32, bits.getLsbD N = true → ∃ j ∈ got ++ [i], j + N + 1 = n := by
    intro N hN hbit
    obtain ⟨j, hj, hjN⟩ := h N hN hbit
    exact ⟨j, List.mem_append_left _ hj, hjN⟩
  intro N hN hbit
  by_cases hin : i < n ∧ n < i + 32
  · rw [if_pos hin, getLsbD_fill_in bits (by omega)] at hbit
    rcases hbit with hbit | heq
    · exact hold N hN hbit
    · exact ⟨i, List.mem_append_right _ (List.mem_singleton_self i), by omega⟩
  · rw [if_neg hin] at hbit
    exact hold N hN hbit

/-- **Receiving a packet keeps the acknowledgement sound.** -/
theorem Hears.onPacketReceived (h : Hears got t) (hbound : bound ≤ 2 ^ 15)
    (hgot : ∀ s ∈ got, s < bound) (hi : i < bound) :
    Hears (got ++ [i]) (t.onPacketReceived i time) := by
  have hmod : ∀ x, x < bound → x % u16Size = x := fun x hx =>
    Nat.mod_eq_of_lt (by unfold u16Size; omega)
  cases hany : t.receivedAny with
  | false =>
    rw [onPacketReceived_first hany]
    refine ⟨fun hc => absurd hc (by simp), fun _ => by simp, ?_⟩
    intro _ N hN hbit
    rw [(h.silent hany).2] at hbit
    exact absurd hbit (by simp)
  | true =>
    have hn := hgot _ (h.ack hany)
    have hrecv : t.recvAck = t.recvAck % u16Size := (hmod _ hn).symm
    rcases Nat.lt_or_ge t.recvAck i with hlt | hle
    · have heq := onPacketReceived_newer hany hrecv hlt (by omega) time
      rw [hmod i hi] at heq
      rw [heq]
      exact ⟨fun hc => absurd (hany.symm.trans hc) (by simp), fun _ => by simp,
        fun _ => bitsSound_newer (h.ack hany) (h.bits hany) hlt⟩
    · have heq := onPacketReceived_older hany hrecv hle (by omega) time
      have hbits := bitsSound_older (i := i) (h.bits hany)
      rw [hmod i hi] at heq
      rw [heq]
      split
      · rename_i hin
        rw [if_pos hin] at hbits
        exact ⟨fun hc => absurd (hany.symm.trans hc) (by simp),
          fun _ => List.mem_append_left _ (h.ack hany), fun _ => hbits⟩
      · rename_i hin
        rw [if_neg hin] at hbits
        exact ⟨fun hc => absurd (hany.symm.trans hc) (by simp),
          fun _ => List.mem_append_left _ (h.ack hany), fun _ => hbits⟩

/-- What the fields of a packet name: packet 0 if its sender had received nothing, and
packets received otherwise. -/
structure Names (got : List Nat) (packet : PeerPacket) : Prop where
  silent : packet.answers = false → packet.fields.named = [0]
  answers : packet.answers = true → ∀ s ∈ packet.fields.named, s ∈ got

theorem Names.mono {packet : PeerPacket} (h : Names got packet) : Names (got ++ [i]) packet :=
  ⟨h.silent, fun ha s hs => List.mem_append_left _ (h.answers ha s hs)⟩

theorem Hears.names (h : Hears got t) (hbound : bound ≤ 2 ^ 15) (hgot : ∀ s ∈ got, s < bound)
    (seq : Nat) (time : Time) : Names got ⟨seq, t.buildAckFields time, t.receivedAny⟩ := by
  refine ⟨?_, ?_⟩
  · intro hany
    obtain ⟨hack, hbits⟩ := h.silent hany
    simp [AckFields.named, PacketTracker.buildAckFields, hack, hbits]
  · intro hany s hs
    have hack := hgot _ (h.ack hany)
    rcases AckFields.mem_named.mp hs with heq | ⟨N, hN, hbit, heq⟩
    · rw [heq]
      exact h.ack hany
    · obtain ⟨j, hj, hjN⟩ := h.bits hany N hN hbit
      have hsj : s = j := by
        rw [heq]
        show (t.recvAck + u16Size - (N + 1)) % u16Size = j
        unfold u16Size
        omega
      rwa [hsj]

/-! ### One direction -/

/-- The packets of `p`, seen from both ends. -/
structure Half (p q : Peer) : Prop where
  next : p.tracker.sendSequence = p.sent.length
  numbered : ∀ (k : Nat) (packet : PeerPacket), p.sent[k]? = some packet → packet.sequence = k
  reached : ∀ s ∈ q.received, s < p.sent.length
  hears : Hears q.received q.tracker
  flight : ∀ packet ∈ q.sent, Names q.received packet
  /-- What `p` takes to be acknowledged has been received. -/
  acked : ∀ s, p.tracker.isAcked s = true → s ∈ q.received

variable {p q : Peer} {packet : PeerPacket}

theorem half_start : Half .start .start where
  next := rfl
  numbered := by simp [Peer.start]
  reached := by simp [Peer.start]
  hears := hears_reset
  flight := by simp [Peer.start]
  acked := by
    intro s hs
    exact absurd (PacketTracker.isAcked_iff.mp hs).1 Bool.false_ne_true

theorem Half.send (h : Half p q) (hfew : (p.send time).sent.length < 2 ^ 15) :
    Half (p.send time) q where
  next := by
    simp only [Peer.send, PacketTracker.sendPacket, List.length_append, List.length_singleton] at *
    rw [h.next, Nat.mod_eq_of_lt (by unfold u16Size; omega)]
  numbered := by
    intro k packet hk
    simp only [Peer.send] at hk
    rcases Nat.lt_trichotomy k p.sent.length with hlt | heq | hgt
    · rw [List.getElem?_append_left hlt] at hk
      exact h.numbered k packet hk
    · rw [heq, List.getElem?_concat_length, Option.some.injEq] at hk
      rw [← hk, heq]
      exact h.next
    · rw [List.getElem?_eq_none (by simp; omega)] at hk
      exact absurd hk.symm (Option.some_ne_none _)
  reached := by
    intro s hs
    simp only [Peer.send, List.length_append, List.length_singleton]
    exact Nat.lt_succ_of_lt (h.reached s hs)
  hears := h.hears
  flight := h.flight
  acked := fun s hs => h.acked s (PacketTracker.sendPacket_isAcked.mp hs).2

theorem Half.otherSends (h : Half p q) (hfew : p.sent.length < 2 ^ 15) :
    Half p (q.send time) where
  next := h.next
  numbered := h.numbered
  reached := h.reached
  hears := ⟨h.hears.silent, h.hears.ack, h.hears.bits⟩
  flight := by
    intro packet hpacket
    rcases List.mem_append.mp hpacket with hold | hnew
    · exact h.flight packet hold
    · rw [List.mem_singleton.mp hnew]
      exact h.hears.names hfew.le h.reached _ _
  acked := h.acked

theorem Half.mem_received (h : Half p q) (hpacket : packet ∈ q.sent) (hharm : HarmlessTo p q packet)
    {s : Nat} (hs : s ∈ packet.fields.named) (hopen : p.tracker.Open s) : s ∈ q.received := by
  have hnames := h.flight packet hpacket
  cases hans : packet.answers with
  | true => exact hnames.answers hans s hs
  | false =>
    rw [hnames.silent hans, List.mem_singleton] at hs
    subst hs
    rcases hharm with hans' | hclosed | ⟨-, hmem⟩
    · exact absurd (hans.symm.trans hans') (by simp)
    · rw [PacketTracker.markAcked_fst.mpr hopen] at hclosed
      exact absurd hclosed (by simp)
    · exact hmem

theorem receive_isAcked {s : Nat} :
    (p.receive packet time).tracker.isAcked s = true ↔
      p.tracker.isAcked s = true ∨ s ∈ packet.fields.named ∧ p.tracker.Open s := by
  rw [← PacketTracker.processAcks_isAcked]
  simp only [Peer.receive, PacketTracker.isAcked, (PacketTracker.onPacketReceived_sent _ _ _).1]

theorem receive_open {s : Nat} :
    (p.receive packet time).tracker.Open s ↔ p.tracker.Open s ∧ s ∉ packet.fields.named := by
  rw [← PacketTracker.processAcks_open]
  simp only [Peer.receive, PacketTracker.Open, (PacketTracker.onPacketReceived_sent _ _ _).1]

theorem Half.receive (h : Half p q) (hpacket : packet ∈ q.sent) (hharm : HarmlessTo p q packet) :
    Half (p.receive packet time) q where
  next := by
    simp only [Peer.receive, (PacketTracker.onPacketReceived_sent _ _ _).2,
      (PacketTracker.processAcks_counters _ _).1.sendSequence]
    exact h.next
  numbered := h.numbered
  reached := h.reached
  hears := h.hears
  flight := h.flight
  acked := by
    intro s hs
    rcases receive_isAcked.mp hs with hold | ⟨hnamed, hopen⟩
    · exact h.acked s hold
    · exact h.mem_received hpacket hharm hnamed hopen

theorem Half.otherReceives (h : Half p q) (hfew : p.sent.length < 2 ^ 15) {k : Nat}
    (hk : p.sent[k]? = some packet) : Half p (q.receive packet time) := by
  have hseq := h.numbered k packet hk
  have hlt : k < p.sent.length := (List.getElem?_eq_some_iff.mp hk).1
  refine ⟨h.next, h.numbered, ?_, ?_, ?_, ?_⟩
  · intro s hs
    rcases List.mem_append.mp hs with hold | hnew
    · exact h.reached s hold
    · rw [List.mem_singleton.mp hnew, hseq]
      exact hlt
  · have hprocessed := h.hears.congr (PacketTracker.processAcks_counters _ packet.fields).1
    exact hprocessed.onPacketReceived hfew.le h.reached (by rw [hseq]; exact hlt)
  · exact fun packet' hpacket' => (h.flight packet' hpacket').mono
  · exact fun s hs => List.mem_append_left _ (h.acked s hs)

/-! ### Counting -/

/-- The packets of `p` acknowledged so far, and the total of `process_acks`. -/
structure Tally (p : Peer) (acked : List Nat) : Prop where
  total : p.newlyAcked = acked.length
  nodup : acked.Nodup
  covers : ∀ s, p.tracker.isAcked s = true → s ∈ acked
  /-- An acknowledged packet is never open again. -/
  closed : ∀ s ∈ acked, s < p.sent.length ∧ ¬ p.tracker.Open s

variable {acked : List Nat}

theorem tally_start : Tally .start [] where
  total := rfl
  nodup := List.nodup_nil
  covers := fun s hs => absurd (PacketTracker.isAcked_iff.mp hs).1 Bool.false_ne_true
  closed := by simp

theorem Tally.send (h : Tally p acked) (hnext : p.tracker.sendSequence = p.sent.length) :
    Tally (p.send time) acked where
  total := h.total
  nodup := h.nodup
  covers := fun s hs => h.covers s (PacketTracker.sendPacket_isAcked.mp hs).2
  closed := by
    intro s hs
    obtain ⟨hlt, hclosed⟩ := h.closed s hs
    refine ⟨?_, ?_⟩
    · simp only [Peer.send, List.length_append, List.length_singleton]
      omega
    · intro hopen
      rcases PacketTracker.sendPacket_open.mp hopen with heq | ⟨-, hold⟩
      · omega
      · exact hclosed hold

theorem Tally.receive (h : Tally p acked) (hhalf : Half p q) (hpacket : packet ∈ q.sent)
    (hharm : HarmlessTo p q packet) :
    ∃ new, Tally (p.receive packet time) (acked ++ new) ∧
      ∀ s ∈ new, (p.receive packet time).tracker.isAcked s = true := by
  obtain ⟨new, hcount, hnodup, hmem⟩ := p.tracker.processAcks_count packet.fields
  have hisAcked : ∀ s ∈ new, (p.receive packet time).tracker.isAcked s = true := fun s hs =>
    receive_isAcked.mpr (Or.inr ((hmem s).mp hs))
  refine ⟨new, ⟨?_, ?_, ?_, ?_⟩, hisAcked⟩
  · show p.newlyAcked + (p.tracker.processAcks packet.fields).1 = (acked ++ new).length
    rw [h.total, hcount, List.length_append]
  · refine List.nodup_append.mpr ⟨h.nodup, hnodup, ?_⟩
    intro s hs s' hs' heq
    rw [heq] at hs
    exact (h.closed s' hs).2 ((hmem s').mp hs').2
  · intro s hs
    rw [List.mem_append]
    rcases receive_isAcked.mp hs with hold | hnew
    · exact Or.inl (h.covers s hold)
    · exact Or.inr ((hmem s).mpr hnew)
  · intro s hs
    rw [receive_open]
    rcases List.mem_append.mp hs with hold | hnew
    · exact ⟨(h.closed s hold).1, fun hc => (h.closed s hold).2 hc.1⟩
    · obtain ⟨hnamed, hopen⟩ := (hmem s).mp hnew
      exact ⟨hhalf.reached s (hhalf.mem_received hpacket hharm hnamed hopen),
        fun hc => hc.2 hnamed⟩

/-! ### Runs -/

/-- Both directions. -/
def Halves (s : Peers) : Prop :=
  ∀ who, Half (s.get who) (s.get who.other)

theorem halves_set {s : Peers} (who : PeerName) {p : Peer}
    (hself : Half p (s.get who.other)) (hother : Half (s.get who.other) p) :
    Halves (s.set who p) := by
  intro x
  rcases x.eq_or_eq_other who with rfl | rfl
  · rw [Peers.get_set_self, Peers.get_set_other]
    exact hself
  · rw [PeerName.other_other, Peers.get_set_self, Peers.get_set_other]
    exact hother

/-- Fewer than `2 ^ 15` packets have been sent on either side. -/
def Few (s : Peers) : Prop :=
  ∀ who, (s.get who).sent.length < 2 ^ 15

/-- Packets are only ever added. -/
theorem sent_length_mono (s : Peers) (e : PeerEvent) (who : PeerName) :
    (s.get who).sent.length ≤ ((peersStep s e).get who).sent.length := by
  have hset : ∀ (x : PeerName) (p : Peer), (s.get x).sent.length ≤ p.sent.length →
      (s.get who).sent.length ≤ ((s.set x p).get who).sent.length := by
    intro x p hp
    rcases who.eq_or_eq_other x with rfl | rfl
    · rwa [Peers.get_set_self]
    · rw [Peers.get_set_other]
  cases e with
  | send x time => exact hset x _ (by simp [Peer.send])
  | arrive x k time =>
    simp only [peersStep]
    split
    · exact Nat.le_refl _
    · exact hset x _ (Nat.le_refl _)

theorem few_of_step {s : Peers} {e : PeerEvent} (h : Few (peersStep s e)) : Few s :=
  fun who => Nat.lt_of_le_of_lt (sent_length_mono s e who) (h who)

theorem halves_step {s : Peers} {e : PeerEvent} (h : Halves s) (hharm : DefaultAckHarmless s e)
    (hfew : Few (peersStep s e)) : Halves (peersStep s e) := by
  have hfew' := few_of_step hfew
  cases e with
  | send who time =>
    refine halves_set who ((h who).send ?_) ?_
    · have hlen := hfew who
      simp only [peersStep, Peers.get_set_self] at hlen
      exact hlen
    · have hother := h who.other
      rw [PeerName.other_other] at hother
      exact hother.otherSends (hfew' who.other)
  | arrive who k time =>
    simp only [peersStep]
    split
    · exact h
    · rename_i packet hk
      refine halves_set who ((h who).receive (List.mem_of_getElem? hk) (hharm packet hk)) ?_
      have hother := h who.other
      rw [PeerName.other_other] at hother
      exact hother.otherReceives (hfew' who.other) hk

theorem tally_step {s : Peers} {e : PeerEvent} (h : Halves s) (hharm : DefaultAckHarmless s e)
    {who : PeerName} (htally : Tally (s.get who) acked) :
    ∃ new, Tally ((peersStep s e).get who) (acked ++ new) ∧
      ∀ x ∈ new, ((peersStep s e).get who).tracker.isAcked x = true := by
  have hsame : Tally (s.get who) (acked ++ []) := by rwa [List.append_nil]
  cases e with
  | send x time =>
    refine ⟨[], ?_, by simp⟩
    simp only [peersStep]
    rcases who.eq_or_eq_other x with rfl | rfl
    · rw [Peers.get_set_self]
      exact hsame.send (h who).next
    · rw [Peers.get_set_other]
      exact hsame
  | arrive x k time =>
    simp only [peersStep]
    split
    · exact ⟨[], hsame, by simp⟩
    · rename_i packet hk
      rcases who.eq_or_eq_other x with rfl | rfl
      · rw [Peers.get_set_self]
        exact htally.receive (h who) (List.mem_of_getElem? hk) (hharm packet hk)
      · rw [Peers.get_set_other]
        exact ⟨[], hsame, by simp⟩

/-- The state and the packets acknowledged at some time, after a whole run. -/
theorem acks_run (es : List PeerEvent) (hfew : Few (run peersStep .start es))
    (hal : Along peersStep DefaultAckHarmless .start es) :
    Halves (run peersStep .start es) ∧ ∀ who, ∃ acked,
      Tally ((run peersStep .start es).get who) acked ∧ ∀ s, s ∈ acked ↔ ∃ pre, pre <+: es ∧
        ((run peersStep .start pre).get who).tracker.isAcked s = true := by
  induction es using List.reverseRecOn with
  | nil =>
    refine ⟨fun who => by cases who <;> exact half_start, fun who => ⟨[], ?_, ?_⟩⟩
    · cases who <;> exact tally_start
    · intro s
      refine iff_of_false List.not_mem_nil ?_
      rintro ⟨pre, hpre, hacked⟩
      rw [List.prefix_nil.mp hpre] at hacked
      cases who <;> exact absurd (tally_start.covers s hacked) List.not_mem_nil
  | append_singleton es e ih =>
    obtain ⟨hal, hharm, -⟩ := along_append.mp hal
    have hrun : run peersStep .start (es ++ [e]) = peersStep (run peersStep .start es) e := by
      rw [run_append]
      rfl
    rw [hrun] at hfew ⊢
    obtain ⟨hhalves, htally⟩ := ih (few_of_step hfew) hal
    refine ⟨halves_step hhalves hharm hfew, ?_⟩
    intro who
    obtain ⟨acked, hacked, hmem⟩ := htally who
    obtain ⟨new, hnew, hisAcked⟩ := tally_step hhalves hharm hacked
    refine ⟨acked ++ new, hnew, ?_⟩
    intro s
    constructor
    · intro hs
      rcases List.mem_append.mp hs with hold | hadded
      · obtain ⟨pre, hpre, hpre'⟩ := (hmem s).mp hold
        exact ⟨pre, hpre.trans (List.prefix_append _ _), hpre'⟩
      · exact ⟨es ++ [e], List.prefix_rfl, by rw [hrun]; exact hisAcked s hadded⟩
    · rintro ⟨pre, hpre, hpre'⟩
      rcases List.prefix_concat_iff.mp hpre with heq | hold
      · rw [heq, hrun] at hpre'
        exact hnew.covers s hpre'
      · exact List.mem_append_left _ ((hmem s).mpr ⟨pre, hold, hpre'⟩)

/--
**Acknowledgements are sound** in every run where packets sent before their sender
received anything arrive only where they do no harm: what a peer takes to be
acknowledged it has sent and the other end has received, and its `process_acks` have
returned, in all, the number of its packets acknowledged at some time.
-/
theorem acks_sound (es : List PeerEvent)
    (hfew : ∀ who, ((run peersStep .start es).get who).sent.length < 2 ^ 15)
    (hal : Along peersStep DefaultAckHarmless .start es) (who : PeerName) :
    (∀ s, ((run peersStep .start es).get who).tracker.isAcked s = true →
      (∃ packet ∈ ((run peersStep .start es).get who).sent, packet.sequence = s) ∧
        s ∈ ((run peersStep .start es).get who.other).received) ∧
    ∃ acked : List Nat, acked.Nodup ∧
      (∀ s, s ∈ acked ↔ ∃ pre, pre <+: es ∧
        ((run peersStep .start pre).get who).tracker.isAcked s = true) ∧
      ((run peersStep .start es).get who).newlyAcked = acked.length := by
  obtain ⟨hhalves, htally⟩ := acks_run es hfew hal
  obtain ⟨acked, hacked, hmem⟩ := htally who
  refine ⟨?_, acked, hacked.nodup, hmem, hacked.total⟩
  intro s hs
  have hreceived := (hhalves who).acked s hs
  have hlt := (hhalves who).reached s hreceived
  exact ⟨⟨_, List.getElem_mem hlt, (hhalves who).numbered s _ (List.getElem?_eq_getElem hlt)⟩,
    hreceived⟩

/-- `b` has reused its first record by the time anything reaches it; `a` then learns that
its packet 0 arrived. -/
def ackAfterBurst : List PeerEvent :=
  List.replicate 34 (.send .b 0) ++
    [.send .a 1, .arrive .b 0 2, .send .b 3, .arrive .a 34 4]

theorem acks_sound_after_burst :
    ((run peersStep .start ackAfterBurst).get .a).tracker.isAcked 0 = true ∧
    0 ∈ ((run peersStep .start ackAfterBurst).get PeerName.a.other).received := by
  have hacked : ((run peersStep .start ackAfterBurst).get .a).tracker.isAcked 0 = true := by
    decide +kernel
  have hfew : ∀ who, ((run peersStep .start ackAfterBurst).get who).sent.length < 2 ^ 15 := by
    intro who
    cases who <;> decide +kernel
  exact ⟨hacked, ((acks_sound ackAfterBurst hfew (by decide +kernel) .a).1 0 hacked).2⟩

/-- The first packet of `a` acknowledges packet 0 of `b`, which `b` has not sent. -/
theorem unsent_packet_acked :
    ((run peersStep .start [.send .a 0, .arrive .b 0 0]).get .b).tracker.isAcked 0 = true ∧
    ((run peersStep .start [.send .a 0, .arrive .b 0 0]).get .b).sent.length = 0 ∧
    ((run peersStep .start [.send .a 0, .arrive .b 0 0]).get .b).newlyAcked = 1 := by
  decide +kernel

end Netudp
