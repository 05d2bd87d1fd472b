/-
Which accepted messages can be sent.

`queue_send` takes messages of up to 1200 bytes.  A packet has 1200 bytes for its
payload, of which the acknowledgement takes 8 and the head of a frame 6 on a reliable
channel and 4 on the others.  So a reliable message of 1187 bytes is accepted, taken out
of its queue and recorded, and then its frame does not fit even into an empty packet.

A message within `maxSendable` goes out.  The argument follows a call of the send path:
while the messages up to it fit and the budget covers the packets flushed for them, each
joins the packet being filled; whatever happens after that, the packet is sent.
-/
import Netudp.Proofs.Outbox

namespace Netudp

open Lib

variable {Key Ct : Type} {C : Primitives Key Ct} {S : SendPath Key Ct} {now : Time} {pid : Nat}
  {ep : Endpoint} {n : Nat} {kind : Nat → Bool}

/-! ### What is queued -/

/-- What the queues hold: messages of the sizes and with the numbers `queue_send` gives. -/
structure Accepted (n : Nat) (kind : Nat → Bool) (c : Connection Key) : Prop where
  numChannels : c.numChannels = n
  kinds : ∀ i, c.isReliable i = kind i
  counter : ∀ i, (c.ch i).sendSeq < u16Size
  messages : ∀ i, ∀ msg ∈ (c.ch i).queue,
    (0 < msg.data.length ∧ msg.data.length ≤ mtu) ∧ msg.sequence < u16Size

section Queued

variable {c c' : Connection Key} {ch channel : Nat} {msg : QueuedMessage} {q : Channel}
  {data : Bytes} {flags : SendFlags}

theorem Accepted.congr (h : Accepted n kind c) (hnum : c'.numChannels = c.numChannels)
    (hch : ∀ i, SameMessages (c.ch i) (c'.ch i)) : Accepted n kind c' where
  numChannels := hnum.trans h.numChannels
  kinds i := by
    rw [← h.kinds i]
    unfold Connection.isReliable
    rw [(hch i).config]
  counter i := by
    rw [(hch i).sendSeq]
    exact h.counter i
  messages i := by
    rw [(hch i).queue]
    exact h.messages i

theorem Accepted.sameSchedule (h : Accepted n kind c) (hs : SameSchedule c c') :
    Accepted n kind c' := by
  refine h.congr hs.numChannels fun i => ?_
  rw [hs.ch i]
  exact ⟨rfl, rfl, rfl⟩

/-- Asking the scheduler leaves the queues alone, and the channel it picks has a message. -/
theorem Accepted.next (hS : S.Sound) (now : Time) (h : Accepted n kind c) :
    Accepted n kind (S.next now c).2 ∧
      ∀ i, (S.next now c).1 = some i → i < n ∧ ((S.next now c).2.ch i).queue ≠ [] := by
  obtain ⟨mask, hmask⟩ := hS.next_eq now c
  rw [hmask]
  refine ⟨h.congr rfl fun i => ⟨rfl, rfl, rfl⟩, fun i hi => ?_⟩
  rw [← h.numChannels]
  exact hS.next_ready hi

theorem Accepted.dequeue (h : Accepted n kind c) (hdeq : (c.ch ch).dequeueSend = (some msg, q)) :
    Accepted n kind (c.setCh ch q) := by
  obtain ⟨rest, r, hqueue, hrest, hq⟩ := Channel.dequeueSend_some hdeq
  refine ⟨h.numChannels, fun i => ?_, fun i => ?_, ?_⟩
  · exact (isReliable_of_setCh (fun _ => rfl) (by rw [hq]) i).trans (h.kinds i)
  · rw [Connection.ch_setCh]
    split
    · rw [hq]
      exact h.counter ch
    · exact h.counter i
  · refine forall_queue_of_setCh (fun _ => rfl) (fun m hm => h.messages ch m ?_) h.messages
    rw [hq] at hm
    rw [hqueue]
    exact List.mem_cons_of_mem msg (hrest ▸ hm)

/-- A call of the send path only takes messages out. -/
theorem Accepted.sendPending (hS : S.Sound) (now : Time) (h : Accepted n kind c) :
    Accepted n kind (sendPending S now c).1 :=
  sendPending_keeps_schedule S now (Accepted n kind) (fun _ _ hs hc => hc.sameSchedule hs)
    (fun _ _ _ _ hc hdeq => hc.dequeue hdeq) (fun _ hc => (hc.next hS now).1) h

/-- A message `queue_send` takes has one of its sizes and the next number. -/
theorem Accepted.enqueue (h : Accepted n kind c)
    (hq : ep.queueMessage c now channel data flags = some c') : Accepted n kind c' := by
  obtain ⟨q, q', mask, hsend, hsame, rfl⟩ := queueMessage_eq hq
  obtain ⟨hsize, hqueue, hseq, hconfig, -⟩ := Channel.queueSend_true hsend
  refine ⟨h.numChannels, fun i => ?_, fun i => ?_, ?_⟩
  · exact (isReliable_of_setCh (fun _ => rfl) (hsame.config.trans hconfig) i).trans (h.kinds i)
  · show ((c.setCh channel q').ch i).sendSeq < u16Size
    rw [Connection.ch_setCh]
    split
    · rw [hsame.sendSeq, hseq]
      exact Nat.mod_lt _ (by decide)
    · exact h.counter i
  · refine forall_queue_of_setCh (fun _ => rfl) (fun msg hmsg => ?_) h.messages
    rw [hsame.queue, hqueue] at hmsg
    rcases List.mem_append.mp hmsg with hold | hnew
    · exact h.messages channel msg hold
    · rw [List.mem_singleton.mp hnew]
      exact ⟨hsize, h.counter channel⟩

/-- The frame of the oldest message of a queue is read back by the receiver. -/
theorem Accepted.head (h : Accepted n kind c) (hlt : ch < n) {rest : List QueuedMessage}
    (hqueue : (c.ch ch).queue = msg :: rest) :
    0 < msg.data.length ∧ (frameOf kind (ch, msg)).Readable n := by
  obtain ⟨⟨hpos, hle⟩, hseq⟩ := h.messages ch msg (by rw [hqueue]; exact List.mem_cons_self)
  have hlen : msg.data.length < u16Size := by
    unfold mtu at hle
    unfold u16Size
    omega
  refine ⟨hpos, ?_⟩
  unfold frameOf
  by_cases hkind : kind ch = true
  · rw [if_pos hkind]
    exact ⟨hlt, hseq, hlen⟩
  · rw [if_neg hkind]
    exact ⟨hlt, hlen⟩

end Queued

theorem start_accepted (c : Connection Key) (configs : List ChannelConfig) (time : Time) :
    Accepted (c.initSubsystems configs time).numChannels (c.initSubsystems configs time).isReliable
      (c.initSubsystems configs time) := by
  have hnew := initSubsystems_ch c configs time
  refine ⟨rfl, fun i => rfl, fun i => ?_, fun i msg hmsg => ?_⟩
  · rw [(hnew i).2]
    decide
  · rw [(hnew i).1] at hmsg
    exact absurd hmsg List.not_mem_nil

/-- No event of an outbox queues anything else, whatever the sizes and the budget. -/
theorem outboxStep_accepted (hC : C.Ideal) {s : Outbox Key Ct} (h : Accepted n kind s.conn)
    (ev : Time × OutboxEvent) : Accepted n kind (outboxStep C pid ep s ev).conn := by
  have hS := ep.sendPath_sound hC pid
  obtain ⟨now, ev⟩ := ev
  cases ev with
  | send channel data flags =>
    rcases ep.send_cases C pid now s.conn channel data flags with ⟨-, hrest⟩ | ⟨c', -, hq, hsend⟩
    · simp only [outboxStep, hrest]
      exact h
    · simp only [outboxStep, hsend]
      by_cases hflag : hasFlag flags sendNoDelay = true
      · rw [if_pos hflag]
        exact (h.enqueue hq).sendPending hS now
      · rw [if_neg hflag]
        exact h.enqueue hq
  | flush =>
    obtain ⟨hnum, -, -, hch⟩ := flushChannels_eq s.conn
    have hflushed := (h.congr hnum hch).sendPending hS now
    cases ep with
    | server =>
      simp only [outboxStep, Endpoint.flush, serverFlush]
      split
      · exact h
      · exact hflushed
    | client => exact hflushed
  | pending => exact h.sendPending hS now
  | budget budget => exact h.congr rfl fun i => ⟨rfl, rfl, rfl⟩

/-! ### What a packet carries -/

/-- One of the payloads carries the message, as the receiver reads it. -/
def InPacket (n : Nat) (kind : Nat → Bool) (payloads : List Bytes) (m : Nat × QueuedMessage) :
    Prop :=
  ∃ payload ∈ payloads, frameOf kind m ∈ payloadFrames n payload

/-- Each of the messages is in the packet being filled or in one that was sent. -/
def Packing.Holds (n : Nat) (kind : Nat → Bool) (msgs : List (Nat × QueuedMessage))
    (p : Packing Key Ct) : Prop :=
  ∃ cur, Filling n kind p.payload p.framesPacked cur ∧
    ∀ m ∈ msgs, m ∈ cur ∨ InPacket n kind (emittedPayloads p.actions) m

/-- After a `return` they have all been sent. -/
def Packing.Outcome.Holds (n : Nat) (kind : Nat → Bool) (msgs : List (Nat × QueuedMessage)) :
    Packing.Outcome Key Ct → Prop
  | .proceed p => p.Holds n kind msgs
  | .leave p => p.Holds n kind msgs
  | .stop p => ∀ m ∈ msgs, InPacket n kind (emittedPayloads p.actions) m

section Packet

variable {msgs : List (Nat × QueuedMessage)} {p : Packing Key Ct} {ch : Nat} {msg : QueuedMessage}

/-- Once the packet being filled is sent, all of them are. -/
theorem Filling.inPacket {payload : Bytes} {k : Nat} {cur : List (Nat × QueuedMessage)}
    {payloads : List Bytes} {m : Nat × QueuedMessage} (h : Filling n kind payload k cur)
    (hn : n ≤ 256) (hm : m ∈ cur ∨ InPacket n kind payloads m) :
    InPacket n kind (payloads ++ [payload]) m := by
  rcases hm with hcur | ⟨sent, hmem, hframe⟩
  · refine ⟨payload, List.mem_append_right _ (List.mem_singleton_self _), ?_⟩
    rw [h.carries hn]
    exact List.mem_map_of_mem hcur
  · exact ⟨sent, List.mem_append_left _ hmem, hframe⟩

theorem Packing.Holds.flush (hS : S.Sound) (now : Time) (hn : n ≤ 256) (h : p.Holds n kind msgs) :
    ∃ p', p.flush S now = (true, p') ∧
      ∀ m ∈ msgs, InPacket n kind (emittedPayloads p'.actions) m := by
  obtain ⟨cur, hfill, hmsgs⟩ := h
  obtain ⟨p', hflush, -, hemit, -⟩ := flush_sound now hS p
  refine ⟨p', hflush, fun m hm => ?_⟩
  rw [hemit]
  exact hfill.inPacket hn (hmsgs m hm)

/-- Making room loses no message: the packet that is flushed is sent. -/
theorem Packing.Holds.makeRoom (hS : S.Sound) (now : Time) (hn : n ≤ 256)
    (h : p.Holds n kind msgs) (needed : Nat) : (p.makeRoom S now needed).Holds n kind msgs := by
  unfold Packing.makeRoom
  split
  · obtain ⟨p', hflush, hsent⟩ := h.flush hS now hn
    simp only [hflush]
    split
    · exact ⟨[], startPacket_filling n kind now p', fun m hm => Or.inr (hsent m hm)⟩
    · exact hsent
  · exact h

theorem addFrame_full (now : Time) (p : Packing Key Ct) (ch : Nat) (msg : QueuedMessage)
    (hkind : p.conn.isReliable ch = kind ch)
    (hfull : mtu - p.payload.length < (frameOf kind (ch, msg)).bytes.length) :
    ∃ p', p.addFrame now ch msg = (false, p') ∧ p'.payload = p.payload ∧
      p'.framesPacked = p.framesPacked ∧
      emittedPayloads p'.actions = emittedPayloads p.actions := by
  unfold Connection.isReliable at hkind
  unfold frameOf at hfull
  by_cases hrel : kind ch = true
  · rw [if_pos hrel] at hfull
    simp only [Packing.addFrame, hkind, if_pos hrel, writeReliableFrame, frameIn, if_pos hfull,
      Packing.append]
    refine ⟨_, rfl, ?_⟩
    simp only [Packing.record]
    split
    · exact ⟨rfl, rfl, rfl⟩
    · exact ⟨rfl, rfl, by simp [emittedPayloads]⟩
  · rw [if_neg hrel] at hfull
    simp only [Packing.addFrame, hkind, if_neg hrel, writeUnreliableFrame, frameIn, if_pos hfull,
      Packing.append]
    exact ⟨p, rfl, rfl, rfl, rfl⟩

theorem Packing.Holds.addFrame (now : Time) (h : p.Holds n kind msgs)
    (hkind : p.conn.isReliable ch = kind ch) (hpos : 0 < msg.data.length)
    (hread : (frameOf kind (ch, msg)).Readable n) :
    (p.addFrame now ch msg).2.Holds n kind msgs := by
  obtain ⟨cur, hfill, hmsgs⟩ := h
  by_cases hfits : p.payload.length + (frameOf kind (ch, msg)).bytes.length ≤ mtu
  · obtain ⟨p', hadd, hwrote⟩ := addFrame_sound now hkind hpos hfits
    rw [hadd]
    refine ⟨cur ++ [(ch, msg)], hfill.wrote hwrote hread, fun m hm => ?_⟩
    rw [hwrote.emitted]
    exact (hmsgs m hm).imp (List.mem_append_left _) id
  · have hsome : 0 < (frameOf kind (ch, msg)).bytes.length := by
      rw [length_frameOf]
      exact Nat.add_pos_right _ hpos
    obtain ⟨p', hadd, hpayload, hpacked, hemit⟩ :=
      addFrame_full now p ch msg hkind (by omega)
    rw [hadd]
    refine ⟨cur, ?_, ?_⟩
    · rw [hpayload, hpacked]
      exact hfill
    · rw [hemit]
      exact hmsgs

theorem isReliable_sameSchedule {c c' : Connection Key} (h : SameSchedule c c') (i : Nat) :
    c'.isReliable i = c.isReliable i := by
  unfold Connection.isReliable
  rw [h.ch i]

/-- Whatever becomes of a message, those packed before it stay or are sent. -/
theorem Packing.Holds.pack (hS : S.Sound) (now : Time) (hn : n ≤ 256) (h : p.Holds n kind msgs)
    (hkind : p.conn.isReliable ch = kind ch) (hpos : 0 < msg.data.length)
    (hread : (frameOf kind (ch, msg)).Readable n) : (p.pack S now ch msg).Holds n kind msgs := by
  have hroom := h.makeRoom hS now hn (p.frameNeeded ch msg)
  have hsched := makeRoom_keeps (packKeeps_sameSchedule S now p.conn) p (p.frameNeeded ch msg)
    (SameSchedule.refl _)
  unfold Packing.pack
  cases hout : p.makeRoom S now (p.frameNeeded ch msg) with
  | leave p' =>
    rw [hout] at hroom
    exact hroom
  | stop p' =>
    rw [hout] at hroom
    exact hroom
  | proceed p' =>
    rw [hout] at hroom hsched
    have hadd := Packing.Holds.addFrame now hroom
      ((isReliable_sameSchedule hsched ch).trans hkind) hpos hread
    simp only
    cases hframe : p'.addFrame now ch msg with
    | mk ok p'' =>
      rw [hframe] at hadd
      cases ok with
      | false => exact hadd
      | true => exact hadd

/-- A message that fits, with the budget for the packet flushed before it, is packed. -/
theorem Packing.Holds.fits (hS : S.Sound) (now : Time) (hn : n ≤ 256) (h : p.Holds n kind msgs)
    (hkind : p.conn.isReliable ch = kind ch) (hpos : 0 < msg.data.length)
    (hle : msg.data.length ≤ maxSendable (kind ch))
    (hread : (frameOf kind (ch, msg)).Readable n) {sizes : List Nat}
    (hbudget : p.conn.budget.queuedBits + flushedBits S.header p.payload.length p.framesPacked
      ((frameOf kind (ch, msg)).bytes.length :: sizes) ≤ 0) :
    ∃ p', p.pack S now ch msg = .proceed p' ∧ p'.Holds n kind (msgs ++ [(ch, msg)]) ∧
      p'.conn.budget.queuedBits +
        flushedBits S.header p'.payload.length p'.framesPacked sizes ≤ 0 := by
  obtain ⟨cur, hfill, hmsgs⟩ := h
  obtain ⟨p', cur', hpack, -, hfill', hspent, hcase⟩ :=
    pack_sound now hS hfill hkind hpos hle hread hbudget
  refine ⟨p', hpack, ⟨cur', hfill', fun m hm => ?_⟩, hspent⟩
  rcases List.mem_append.mp hm with hold | hnew
  · rcases hcase with ⟨rfl, hemit⟩ | ⟨rfl, hemit⟩
    · rw [hemit]
      exact (hmsgs m hold).imp (List.mem_append_left _) id
    · -- The packet has gone out with what was in it.
      rw [hemit]
      exact Or.inr (hfill.inPacket hn (hmsgs m hold))
  · rw [List.mem_singleton.mp hnew]
    rcases hcase with ⟨rfl, -⟩ | ⟨rfl, -⟩
    · exact Or.inl (List.mem_append_right _ (List.mem_singleton_self _))
    · exact Or.inl (List.mem_singleton_self _)

end Packet

/-! ### The loop -/

section Loop

variable {msgs : List (Nat × QueuedMessage)}

/-- The end of the loop: after a `break` the packet is still to be flushed. -/
def LoopHolds (n : Nat) (kind : Nat → Bool) (msgs : List (Nat × QueuedMessage)) :
    Bool × Packing Key Ct → Prop
  | (true, p) => p.Holds n kind msgs
  | (false, p) => ∀ m ∈ msgs, InPacket n kind (emittedPayloads p.actions) m

/-- What a round for a ready channel starts with: the oldest message of its queue. -/
theorem Accepted.round {p : Packing Key Ct} (h : Accepted n kind p.conn) {ch : Nat} (hlt : ch < n)
    (hne : (p.conn.ch ch).queue ≠ []) :
    ∃ msg q, (p.conn.ch ch).dequeueSend = (some msg, q) ∧
      Accepted n kind (p.taken ch msg q).conn ∧ 0 < msg.data.length ∧
      (frameOf kind (ch, msg)).Readable n := by
  obtain ⟨msg, rest, hqueue⟩ := List.exists_cons_of_ne_nil hne
  obtain ⟨ring, -, hdeq⟩ := Channel.dequeueSend_cons hqueue
  obtain ⟨hpos, hread⟩ := h.head hlt hqueue
  exact ⟨msg, _, hdeq, h.dequeue hdeq, hpos, hread⟩

theorem Packing.Holds.taken {p : Packing Key Ct} (h : p.Holds n kind msgs) (ch : Nat)
    (msg : QueuedMessage) (q : Channel) : (p.taken ch msg q).Holds n kind msgs := by
  obtain ⟨cur, hfill, hmsgs⟩ := h
  refine ⟨cur, hfill, fun m hm => ?_⟩
  have hemit : emittedPayloads (p.taken ch msg q).actions = emittedPayloads p.actions := by
    simp [Packing.taken, emittedPayloads]
  rw [hemit]
  exact hmsgs m hm

/-- What has been packed is sent, whatever the rest of the loop does. -/
theorem loop_holds (hS : S.Sound) : ∀ (fuel : Nat) (next : Option Nat) (p : Packing Key Ct),
    Accepted n kind p.conn → p.Holds n kind msgs →
    (∀ i, next = some i → i < n ∧ (p.conn.ch i).queue ≠ []) →
    LoopHolds n kind msgs (Packing.loop S now fuel next p) := by
  intro fuel
  induction fuel with
  | zero => intro next p _ h _; exact h
  | succ fuel ih =>
    intro next p hacc h hnext
    cases next with
    | none => exact h
    | some ch =>
      obtain ⟨hlt, hne⟩ := hnext ch rfl
      obtain ⟨msg, q, hdeq, hacc', hpos, hread⟩ := hacc.round hlt hne
      have hn : n ≤ 256 := hacc.numChannels ▸ Nat.le_trans p.conn.numChannels_le (by decide)
      have hpack := (h.taken ch msg q).pack hS now hn (hacc'.kinds ch) hpos hread
      have hsched := pack_sameSchedule S now (p.taken ch msg q) ch msg
      rw [← round_of_some hdeq] at hpack hsched
      cases hround : p.round S now ch with
      | leave p' =>
        rw [hround] at hpack
        simp only [Packing.loop, hround]
        exact hpack
      | stop p' =>
        rw [hround] at hpack
        simp only [Packing.loop, hround]
        exact hpack
      | proceed p' =>
        rw [hround] at hpack hsched
        rw [loop_proceed hround]
        obtain ⟨hnextAcc, hready⟩ := (hacc'.sameSchedule hsched).next hS now
        exact ih _ _ hnextAcc hpack hready

/-- The messages the scheduler hands out first are packed, as long as they fit and the
budget covers the packets flushed for them. -/
theorem loop_packs (hS : S.Sound) (after : List (Nat × QueuedMessage)) :
    ∀ (before : List (Nat × QueuedMessage)) (fuel : Nat) (next : Option Nat) (p : Packing Key Ct)
      (msgs : List (Nat × QueuedMessage)),
    Accepted n kind p.conn → p.Holds n kind msgs →
    (∀ i, next = some i → i < n ∧ (p.conn.ch i).queue ≠ []) →
    drainFrom S now fuel next p.conn = before ++ after →
    (∀ m ∈ before, m.2.data.length ≤ maxSendable (kind m.1)) →
    p.conn.budget.queuedBits + flushedBits S.header p.payload.length p.framesPacked
      (before.map fun m => (frameOf kind m).bytes.length) ≤ 0 →
    LoopHolds n kind (msgs ++ before) (Packing.loop S now fuel next p) := by
  intro before
  induction before with
  | nil =>
    intro fuel next p msgs hacc h hnext _ _ _
    rw [List.append_nil]
    exact loop_holds hS fuel next p hacc h hnext
  | cons m before ih =>
    intro fuel next p msgs hacc h hnext hdrain hsmall hbudget
    cases fuel with
    | zero => exact absurd hdrain (by simp [drainFrom])
    | succ fuel =>
      cases next with
      | none => exact absurd hdrain (by simp [drainFrom])
      | some ch =>
        obtain ⟨hlt, hne⟩ := hnext ch rfl
        obtain ⟨msg, q, hdeq, hacc', hpos, hread⟩ := hacc.round hlt hne
        simp only [drainFrom, hdeq, List.cons_append, List.cons.injEq] at hdrain
        obtain ⟨rfl, hdrain⟩ := hdrain
        have hn : n ≤ 256 := hacc.numChannels ▸ Nat.le_trans p.conn.numChannels_le (by decide)
        obtain ⟨p', hpack, h', hspent⟩ := (h.taken ch msg q).fits hS now hn
          (hacc'.kinds ch) hpos (hsmall _ List.mem_cons_self) hread hbudget
        have hsched : SameSchedule (p.conn.setCh ch q) p'.conn := by
          have hsame := pack_sameSchedule S now (p.taken ch msg q) ch msg
          rw [hpack] at hsame
          exact hsame
        -- The scheduler sees what it would have seen, and the order goes on from there.
        obtain ⟨hpick, horder⟩ := hS.next_congr now hsched
        obtain ⟨hnextAcc, hready⟩ := (hacc'.sameSchedule hsched).next hS now
        obtain ⟨mask, hmask⟩ := hS.next_eq now p'.conn
        rw [loop_proceed ((round_of_some hdeq).trans hpack), List.append_cons]
        refine ih fuel _ _ _ hnextAcc h' hready ?_
          (fun x hx => hsmall x (List.mem_cons_of_mem _ hx)) ?_
        · show drainFrom S now fuel (S.next now p'.conn).1 (S.next now p'.conn).2 = _
          rw [hpick, drainFrom_congr hS fuel _ horder]
          exact hdrain
        · show (S.next now p'.conn).2.budget.queuedBits + _ ≤ 0
          rw [hmask]
          exact hspent

/-- The messages up to one that fits are sent by the call that hands them out. -/
theorem sendPending_packs (hS : S.Sound) {c : Connection Key} (hacc : Accepted n kind c)
    {before after : List (Nat × QueuedMessage)} (hdrain : drainOrder S now c = before ++ after)
    (hsmall : ∀ m ∈ before, m.2.data.length ≤ maxSendable (kind m.1))
    (hbudget : c.budget.queuedBits +
      flushedBits S.header 8 0 (before.map fun m => (frameOf kind m).bytes.length) ≤ 0) :
    ∀ m ∈ before, InPacket n kind (emittedPayloads (sendPending S now c).2) m := by
  have hn : n ≤ 256 := hacc.numChannels ▸ Nat.le_trans c.numChannels_le (by decide)
  have hcan : c.budget.canSend = true := by
    have hrest := flushedBits_nonneg S.header 8 0
      (before.map fun m => (frameOf kind m).bytes.length)
    unfold QueuedBitsBudget.canSend
    exact decide_eq_true (by omega)
  have hstart : (((⟨c, [], 0, []⟩ : Packing Key Ct).startPacket now).schedule S now).2.Holds
      n kind [] :=
    ⟨[], startPacket_filling n kind now ⟨c, [], 0, []⟩, List.forall_mem_nil _⟩
  obtain ⟨hnextAcc, hready⟩ := hacc.next hS now
  obtain ⟨mask, hmask⟩ := hS.next_eq now c
  have hloop : LoopHolds n kind before (Packing.loop S now (c.queued + 1)
      (((⟨c, [], 0, []⟩ : Packing Key Ct).startPacket now).schedule S now).1
      (((⟨c, [], 0, []⟩ : Packing Key Ct).startPacket now).schedule S now).2) := by
    refine loop_packs hS after before _ _ _ [] hnextAcc hstart hready hdrain hsmall ?_
    show (S.next now c).2.budget.queuedBits + flushedBits S.header (writeAckFields _).length 0 _ ≤ 0
    rw [hmask, length_writeAckFields]
    exact hbudget
  unfold sendPending
  rw [if_neg (by simp [hcan])]
  simp only
  generalize Packing.loop S now (c.queued + 1)
      (((⟨c, [], 0, []⟩ : Packing Key Ct).startPacket now).schedule S now).1
      (((⟨c, [], 0, []⟩ : Packing Key Ct).startPacket now).schedule S now).2 = result at hloop ⊢
  obtain ⟨toFlush, p⟩ := result
  cases toFlush with
  | false => exact hloop
  | true =>
    by_cases hpos : 0 < p.framesPacked
    · obtain ⟨p', hflush, hsent⟩ := hloop.flush hS now hn
      rw [if_pos (by simpa using hpos), hflush]
      exact hsent
    · -- Nothing is packed, so everything has been sent.
      rw [if_neg (by simpa using hpos)]
      obtain ⟨cur, hfill, hmsgs⟩ := hloop
      have hnil : cur = [] := List.length_eq_zero_iff.mp (by rw [← hfill.framesPacked]; omega)
      intro m hm
      refine (hmsgs m hm).resolve_left ?_
      rw [hnil]
      exact List.not_mem_nil

end Loop

/-! ### Whole runs -/

/--
**An accepted message that fits is sent**, at either endpoint, after any sends of any
sizes: when the scheduler hands it out, within `maxSendable` like those before it in the
same call, and the budget covers the packets flushed on the way, the call sends a packet
in which the receiver finds the message.
-/
theorem accepted_message_is_sent (C : Primitives Key Ct) (hC : C.Ideal) (pid : Nat)
    (ep : Endpoint) (c : Connection Key) (configs : List ChannelConfig) (time : Time)
    (es : List (Time × OutboxEvent)) (now : Time) (conn : Connection Key)
    (hconn : (run (outboxStep C pid ep) (.start (c.initSubsystems configs time)) es).conn = conn)
    (before after : List (Nat × QueuedMessage)) (m : Nat × QueuedMessage)
    (hscheduled : drainOrder (ep.sendPath C pid) now conn = before ++ m :: after)
    (hfits : ∀ x ∈ before ++ [m], x.2.data.length ≤ maxSendable (conn.isReliable x.1))
    (hbudget : conn.budget.queuedBits + flushedBits (ep.sendPath C pid).header 8 0
      ((before ++ [m]).map fun x => (frameOf conn.isReliable x).bytes.length) ≤ 0) :
    ∃ payload ∈ emittedPayloads (sendPending (ep.sendPath C pid) now conn).2,
      frameOf conn.isReliable m ∈ payloadFrames conn.numChannels payload := by
  have hS := ep.sendPath_sound hC pid
  have hacc : Accepted (c.initSubsystems configs time).numChannels
      (c.initSubsystems configs time).isReliable conn := by
    rw [← hconn]
    exact run_invariant' (fun s : Outbox Key Ct => Accepted _ _ s.conn)
      (fun _ ev hs => outboxStep_accepted hC hs ev) es (start_accepted c configs time)
  rw [show conn.isReliable = _ from funext hacc.kinds] at hfits hbudget ⊢
  rw [hacc.numChannels]
  rw [List.append_cons] at hscheduled
  exact sendPending_packs hS hacc hscheduled hfits hbudget m
    (List.mem_append_right _ (List.mem_singleton_self m))

/-- The largest message that fits on an unreliable channel, and on a reliable one. -/
def fullOutbox : Outbox Nat (Sealed Nat) :=
  run (outboxStep toyCipher 7 .server)
    (.start (toyConnection.initSubsystems [{}, { type := .reliableOrdered }] 1))
    [(1, .budget ⟨-20000, 262144⟩), (1, .send 0 (List.replicate 1188 1) 0),
      (1, .send 1 (List.replicate 1186 2) 0)]

/-- The second of them is handed out after the first, and is sent. -/
theorem full_message_is_sent :
    ∃ payload ∈ emittedPayloads (serverSendPending toyCipher 7 1 fullOutbox.conn).2,
      frameOf fullOutbox.conn.isReliable (1, ⟨List.replicate 1186 2, 0, 0, 0, true⟩) ∈
        payloadFrames fullOutbox.conn.numChannels payload :=
  accepted_message_is_sent toyCipher toyCipher_ideal 7 .server toyConnection
    [{}, { type := .reliableOrdered }] 1 _ 1 fullOutbox.conn rfl
    [(0, ⟨List.replicate 1188 1, 0, 0, 0, true⟩)] [] (1, ⟨List.replicate 1186 2, 0, 0, 0, true⟩)
    (by decide +kernel) (by decide +kernel) (by decide +kernel)

/-- One message on a channel of its own, and a call of the send path. -/
def oneMessage (ep : Endpoint) (type : ChannelType) (size : Nat) : Outbox Nat (Sealed Nat) :=
  run (outboxStep toyCipher 7 ep) (.start (toyConnection.initSubsystems [{ type := type }] 1))
    [(1, .send 0 (List.replicate size 1) 0), (1, .pending)]

/-- The message is accepted and taken out of its queue, and nothing is sent. -/
def MessageLost (ep : Endpoint) (type : ChannelType) (size : Nat) : Prop :=
  (oneMessage ep type size).accepted = [(0, List.replicate size 1)] ∧
    (dequeuedMessages (oneMessage ep type size).actions).length = 1 ∧
    (oneMessage ep type size).conn.queued = 0 ∧
    emittedPayloads (oneMessage ep type size).actions = []
deriving Decidable

/-- One byte more than fits is lost, at either endpoint and on every type of channel. -/
theorem oversized_message_is_lost :
    (MessageLost .server .reliableOrdered 1187 ∧ MessageLost .client .reliableOrdered 1187) ∧
      (MessageLost .server .reliableUnordered 1187 ∧
        MessageLost .client .reliableUnordered 1187) ∧
      (MessageLost .server .unreliable 1189 ∧ MessageLost .client .unreliable 1189) ∧
      MessageLost .server .unreliableSequenced 1189 ∧
      MessageLost .client .unreliableSequenced 1189 := by
  decide +kernel

end Netudp
