/-
Forged packets.

Whoever does not hold a key can still send packets to the server.  One that neither the
current nor the old receive key opens must leave no trace in the connection.  There are
two runs to compare, with the forged packets and without: they are kept equal up to the
count of failed decryptions, which nothing reads.
-/
import Netudp.Proofs.FragmentDelivery

namespace Netudp

open Lib

variable {Key Ct : Type} {C : Primitives Key Ct} {pid : Nat}

/-! ### All but the count of failures -/

/-- The books with the count of failed decryptions cleared. -/
def Bookkeeping.sansFailures (b : Bookkeeping) : Bookkeeping :=
  { b with stats := { b.stats with decryptFailures := 0 } }

theorem Bookkeeping.sansFailures_sansFailures (b : Bookkeeping) :
    b.sansFailures.sansFailures = b.sansFailures := rfl

theorem Bookkeeping.packetReceived_sansFailures (b : Bookkeeping) (bytes : Nat) :
    b.sansFailures.packetReceived bytes = (b.packetReceived bytes).sansFailures := rfl

theorem Bookkeeping.acknowledged_sansFailures (b : Bookkeeping) (newlyAcked : Nat)
    (sendTime now : Time) (ackDelayUs : Nat) :
    b.sansFailures.acknowledged newlyAcked sendTime now ackDelayUs =
      (b.acknowledged newlyAcked sendTime now ackDelayUs).sansFailures := by
  simp only [acknowledged]
  split
  · rfl
  · rfl

/-- The connection with the count of failed decryptions cleared. -/
def Connection.sansFailures (c : Connection Key) : Connection Key :=
  { c with books := c.books.sansFailures }

/-- Two inboxes that differ in that count only. -/
structure AlikeButFailures (s t : Inbox Key) : Prop where
  conn : s.conn.sansFailures = t.conn.sansFailures
  released : s.released = t.released
  handed : s.handed = t.handed

/-- Neither key opens the packet, with the nonce the server takes for it. -/
def Forged (C : Primitives Key Ct) (pid : Nat) (s : Inbox Key) : Time × InboxEvent Ct → Prop
  | (_, .packet packet) =>
    let e := s.conn.keyEpoch
    let nonce := buildNonce (serverExpectedNonce e.replay)
    let aad := buildAad pid packet.prefixByte
    C.decrypt e.rxKey nonce aad packet.ct = none ∧
      C.decrypt e.oldRxKey nonce aad packet.ct = none
  | (_, .receive _ _) => False

instance instDecidableForged (s : Inbox Key) :
    ∀ ev : Time × InboxEvent Ct, Decidable (Forged C pid s ev)
  | (_, .packet _) => inferInstanceAs (Decidable (_ ∧ _))
  | (_, .receive _ _) => isFalse id

/-! ### Nothing reads the count -/

section Reading

variable (now : Time) (c : Connection Key)

theorem onFrame_sansFailures (frame : Frame) :
    c.sansFailures.onFrame now frame =
      ((c.onFrame now frame).1, (c.onFrame now frame).2.sansFailures) := by
  cases frame with
  | unreliableData ch data => rfl
  | reliableData ch msgSeq data =>
    have hch : c.sansFailures.ch ch = c.ch ch := rfl
    have hrs : c.sansFailures.rs ch = c.rs ch := rfl
    simp only [Connection.onFrame, Connection.onReliableData, hch, hrs]
    cases (c.ch ch).config.type with
    | reliableOrdered =>
      cases (c.rs ch).bufferReceivedOrdered msgSeq data with
      | mk taken st =>
        cases taken with
        | false => rfl
        | true => rfl
    | reliableUnordered =>
      cases (c.rs ch).isReceivedUnordered msgSeq with
      | true => rfl
      | false => rfl
    | unreliable => rfl
    | unreliableSequenced => rfl
  | fragmentData ch msgId fragIdx fragCnt data =>
    have hdata : c.sansFailures.cdata = c.cdata := rfl
    simp only [Connection.onFrame, hdata]
    cases c.cdata.fragmentReassembler.onFragmentReceived msgId fragIdx fragCnt data (mtu - 64)
      now with
    | mk complete frag =>
      cases complete with
      | none => rfl
      | some message =>
        by_cases hempty : message.length = 0
        · simp only [if_pos hempty]
          rfl
        · simp only [if_neg hempty]
          rfl
  | disconnect reason => rfl

theorem applyFrame_sansFailures (frame : Frame) :
    c.sansFailures.applyFrame now frame = (c.applyFrame now frame).sansFailures := by
  have hcount : ∀ (c : Connection Key) (n : Nat),
      c.sansFailures.countFrame n frame = (c.countFrame n frame).sansFailures := by
    intro c n
    cases frame <;> rfl
  rw [applyFrame_eq_foldl, applyFrame_eq_foldl, onFrame_sansFailures, hcount]
  exact foldl_deliver_books _ Bookkeeping.sansFailures _

theorem applyFrames_sansFailures (frames : List Frame) :
    c.sansFailures.releases now frames = c.releases now frames ∧
      c.sansFailures.applyFrames now frames =
        ((c.applyFrames now frames).1.sansFailures, (c.applyFrames now frames).2) := by
  induction frames generalizing c with
  | nil => exact ⟨rfl, rfl⟩
  | cons frame rest ih =>
    by_cases hdis : ∃ reason, frame = .disconnect reason
    · obtain ⟨reason, rfl⟩ := hdis
      exact ⟨rfl, rfl⟩
    · have hne : ∀ reason, frame ≠ .disconnect reason := fun reason heq => hdis ⟨reason, heq⟩
      obtain ⟨happly, hreleases⟩ := applyFrames_cons now c hne rest
      obtain ⟨happly', hreleases'⟩ := applyFrames_cons now c.sansFailures hne rest
      obtain ⟨hrest, hend⟩ := ih (c.applyFrame now frame)
      rw [happly, happly', hreleases, hreleases', applyFrame_sansFailures, hrest, hend,
        onFrame_sansFailures]
      exact ⟨rfl, rfl⟩

theorem serverOpenFrames_sansFailures (packet : Packet Ct) :
    (serverOpenFrames C pid now c.sansFailures packet).1.sansFailures =
        (serverOpenFrames C pid now c packet).1.sansFailures ∧
      (serverOpenFrames C pid now c.sansFailures packet).2 =
        (serverOpenFrames C pid now c packet).2 := by
  have hepoch : c.sansFailures.keyEpoch = c.keyEpoch := rfl
  simp only [serverOpenFrames, hepoch]
  split
  · exact ⟨rfl, rfl⟩
  split
  · exact ⟨rfl, rfl⟩
  split
  · exact ⟨rfl, rfl⟩
  · refine ⟨?_, rfl⟩
    simp only [Connection.sansFailures, Bookkeeping.packetReceived_sansFailures,
      Bookkeeping.acknowledged_sansFailures, Bookkeeping.sansFailures_sansFailures]

end Reading

/-! ### The two runs -/

section Alike

variable {c d : Connection Key} (h : c.sansFailures = d.sansFailures) (now : Time)

include h

/-- A packet releases the same for connections that are alike, and leaves them alike. -/
theorem serverHandleDataPacket_alike (packet : Packet Ct) :
    (serverOpenFrames C pid now c packet).1.releases now (serverOpenFrames C pid now c packet).2 =
        (serverOpenFrames C pid now d packet).1.releases now
          (serverOpenFrames C pid now d packet).2 ∧
      (serverHandleDataPacket C pid now c packet).1.sansFailures =
        (serverHandleDataPacket C pid now d packet).1.sansFailures ∧
      (serverHandleDataPacket C pid now c packet).2 =
        (serverHandleDataPacket C pid now d packet).2 := by
  have hopen : ∀ c : Connection Key,
      (serverOpenFrames C pid now c.sansFailures packet).1.sansFailures =
          (serverOpenFrames C pid now c packet).1.sansFailures ∧
        (serverOpenFrames C pid now c.sansFailures packet).2 =
          (serverOpenFrames C pid now c packet).2 :=
    fun c => serverOpenFrames_sansFailures now c packet
  have hopened : (serverOpenFrames C pid now c packet).1.sansFailures =
      (serverOpenFrames C pid now d packet).1.sansFailures := by
    rw [← (hopen c).1, h, (hopen d).1]
  have hframes : (serverOpenFrames C pid now c packet).2 =
      (serverOpenFrames C pid now d packet).2 := by
    rw [← (hopen c).2, h, (hopen d).2]
  obtain ⟨hreleases, happly⟩ := applyFrames_sansFailures now
    (serverOpenFrames C pid now c packet).1 (serverOpenFrames C pid now c packet).2
  obtain ⟨hreleases', happly'⟩ := applyFrames_sansFailures now
    (serverOpenFrames C pid now d packet).1 (serverOpenFrames C pid now d packet).2
  rw [hopened, hframes] at hreleases happly
  have hboth := Prod.mk.inj (happly.symm.trans happly')
  rw [serverHandleDataPacket_eq, serverHandleDataPacket_eq, hframes]
  exact ⟨hreleases.symm.trans hreleases', hboth⟩

theorem serverReceive_alike (handlers : UInt8 → Bool) (maxMessages : Nat) :
    (serverReceive handlers maxMessages c).1 = (serverReceive handlers maxMessages d).1 ∧
      (serverReceive handlers maxMessages c).2.sansFailures =
        (serverReceive handlers maxMessages d).2.sansFailures := by
  have hsans : ∀ c : Connection Key, serverReceive handlers maxMessages c.sansFailures =
      ((serverReceive handlers maxMessages c).1,
        (serverReceive handlers maxMessages c).2.sansFailures) := by
    intro c
    have hactive : c.sansFailures.active = c.active := rfl
    have hdata : c.sansFailures.cdata = c.cdata := rfl
    simp only [serverReceive, hactive, hdata]
    split
    · rfl
    · rfl
  exact Prod.mk.inj ((hsans c).symm.trans ((congrArg _ h).trans (hsans d)))

end Alike

theorem AlikeButFailures.step {s t : Inbox Key} (h : AlikeButFailures s t)
    (ev : Time × InboxEvent Ct) :
    AlikeButFailures (inboxStep C pid s ev) (inboxStep C pid t ev) := by
  obtain ⟨hconn, hreleased, hhanded⟩ := h
  obtain ⟨now, event⟩ := ev
  cases event with
  | packet packet =>
    have hactive : s.conn.active = t.conn.active := congrArg (fun c => c.active) hconn
    simp only [inboxStep]
    rw [hactive]
    split
    · exact ⟨hconn, hreleased, hhanded⟩
    obtain ⟨hreleases, hend, hquit⟩ :
        (serverOpenFrames C pid now s.conn packet).1.releases now _ = _ ∧ _ :=
      serverHandleDataPacket_alike hconn now packet
    rw [hreleases, hreleased]
    cases hs : serverHandleDataPacket C pid now s.conn packet with
    | mk c gone =>
      cases ht : serverHandleDataPacket C pid now t.conn packet with
      | mk d gone' =>
        rw [hs, ht] at hend hquit
        obtain rfl : gone = gone' := hquit
        cases gone with
        | true =>
          -- Released, the slot keeps nothing of the statistics.
          have hreset : c.reset C = d.reset C :=
            (congrArg (Connection.reset C) hend : c.sansFailures.reset C = _)
          exact ⟨congrArg Connection.sansFailures hreset, rfl, hhanded⟩
        | false => exact ⟨hend, rfl, hhanded⟩
  | receive handlers maxMessages =>
    obtain ⟨hout, hend⟩ := serverReceive_alike hconn handlers maxMessages
    exact ⟨hend, hreleased, congrArg₂ (· ++ ·) hhanded hout⟩

/-- A forged packet is counted, and that is all. -/
theorem inboxStep_forged {s : Inbox Key} {ev : Time × InboxEvent Ct} (h : Forged C pid s ev) :
    AlikeButFailures (inboxStep C pid s ev) s := by
  obtain ⟨now, event⟩ := ev
  cases event with
  | receive handlers maxMessages => exact h.elim
  | packet packet =>
    obtain ⟨hcurrent, hold⟩ := h
    have hclosed : serverOpenPacket C pid now s.conn.keyEpoch packet = (none, s.conn.keyEpoch) := by
      rcases serverOpenPacket_cases C pid now s.conn.keyEpoch packet with
        ⟨pt, hdec, -⟩ | ⟨-, pt, e', hdec, -⟩ | hnone
      · obtain ⟨-, -, hraw, -⟩ := packetDecrypt_eq_some_iff.mp hdec
        exact absurd (hcurrent.symm.trans hraw) nofun
      · exact absurd (hold.symm.trans (packetDecryptGrace_some hdec).2) nofun
      · exact hnone
    simp only [inboxStep]
    split
    · exact ⟨rfl, rfl, rfl⟩
    rw [serverHandleDataPacket_eq]
    by_cases hshort : C.ctLen packet.ct < 1
    · simp only [serverOpenFrames, if_pos hshort]
      exact ⟨rfl, List.append_nil _, rfl⟩
    · simp only [serverOpenFrames, if_neg hshort, hclosed]
      exact ⟨rfl, List.append_nil _, rfl⟩

/-- **Forged packets change nothing.**  Packets that neither key opens, put anywhere among
the events of a connection and as many as one likes, change neither what is released and
handed to the application nor the connection, but for its count of failed decryptions. -/
theorem forged_packets_change_nothing {s : Inbox Key} {es fs : List (Time × InboxEvent Ct)}
    (h : Inserts (inboxStep C pid) (Forged C pid) s es fs) :
    AlikeButFailures (run (inboxStep C pid) s fs) (run (inboxStep C pid) s es) := by
  refine run_inserts AlikeButFailures (fun s t ev hst => hst.step ev) (fun s t ev hst hev => ?_) h
    ⟨rfl, rfl, rfl⟩
  have hforged := inboxStep_forged hev
  exact ⟨hforged.conn.trans hst.conn, hforged.released.trans hst.released,
    hforged.handed.trans hst.handed⟩

/-- A packet with one unreliable message. -/
def genuinePacket : Packet (Sealed Nat) :=
  ⟨prefixData, 1, buildNonce 0, buildAad 0 prefixData,
    writeAckFields {} ++ (Frame.unreliableData 0 [5]).bytes⟩

/-- The same, made with another key. -/
def forgedPacket : Packet (Sealed Nat) := { genuinePacket with ct := { genuinePacket.ct with key := 3 } }

/-- A forged packet before and one after the genuine one: the message is released as if
there were none. -/
theorem forged_around_genuine :
    let s : Inbox Nat := .start { keyedConnection with active := true }
    let t := run (inboxStep toyCipher 0) s [(1, .packet forgedPacket), (2, .packet genuinePacket),
      (3, .packet forgedPacket)]
    t.conn.books.stats.decryptFailures = 2 ∧ t.released.map (fun msg => msg.data) = [[5]] ∧
      AlikeButFailures t (run (inboxStep toyCipher 0) s [(2, .packet genuinePacket)]) :=
  ⟨by decide +kernel, by decide +kernel,
    forged_packets_change_nothing (.put (by decide +kernel) (.keep _ (.put (by decide +kernel)
      (.nil _))))⟩

end Netudp
