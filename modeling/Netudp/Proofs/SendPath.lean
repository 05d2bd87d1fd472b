/-
The send path, as specifications.

What each part of a round of the send loop does, for a path whose scheduler is honest
and whose encryption succeeds: a flush sends the payload and charges the budget, a frame
that fits is written and recorded, and room is always made as long as the budget covers
the packets flushed for it.
-/
import Mathlib.Algebra.Order.BigOperators.Group.List
import Netudp.Client.Send
import Netudp.Proofs.Link
import Netudp.Proofs.Receive

namespace Netudp

open Lib

variable {Key Ct : Type} {C : Primitives Key Ct} {S : SendPath Key Ct} {now : Time}

/-! ### What a call did -/

/-- The messages taken out of their queues. -/
def dequeuedMessages (acts : List (SendAction Key Ct)) : List (Nat × QueuedMessage) :=
  acts.filterMap fun
    | .dequeued ch msg => some (ch, msg)
    | _ => none

/-- What `record_send` stored: channel, sequence and bytes. -/
def recordedMessages (acts : List (SendAction Key Ct)) : List (Nat × Nat × Bytes) :=
  acts.filterMap fun
    | .recorded ch seq data => some (ch, seq, data)
    | _ => none

/-- The payloads of the packets sent. -/
def emittedPayloads (acts : List (SendAction Key Ct)) : List Bytes :=
  acts.filterMap fun
    | .emitted _ _ payload _ => some payload
    | _ => none

@[simp] theorem dequeuedMessages_append (as bs : List (SendAction Key Ct)) :
    dequeuedMessages (as ++ bs) = dequeuedMessages as ++ dequeuedMessages bs :=
  List.filterMap_append

@[simp] theorem recordedMessages_append (as bs : List (SendAction Key Ct)) :
    recordedMessages (as ++ bs) = recordedMessages as ++ recordedMessages bs :=
  List.filterMap_append

@[simp] theorem emittedPayloads_append (as bs : List (SendAction Key Ct)) :
    emittedPayloads (as ++ bs) = emittedPayloads as ++ emittedPayloads bs :=
  List.filterMap_append

/-! ### Frames of messages -/

/-- The channel keeps its messages for retransmission. -/
def Connection.isReliable (c : Connection Key) (i : Nat) : Bool := (c.ch i).config.type.isReliable

section OneChannel

variable {c c' : Connection Key} {ch : Nat} {q : Channel}

theorem isReliable_of_setCh (hch : ∀ i, c'.ch i = (c.setCh ch q).ch i)
    (hconfig : q.config = (c.ch ch).config) (i : Nat) : c'.isReliable i = c.isReliable i := by
  unfold Connection.isReliable
  rw [hch i, Connection.ch_setCh]
  by_cases hsame : i % 4 = ch % 4
  · rw [if_pos hsame, hconfig, c.ch_congr hsame]
  · rw [if_neg hsame]

/-- What holds of every queued message still does when it holds of those of the channel. -/
theorem forall_queue_of_setCh {P : QueuedMessage → Prop}
    (hch : ∀ i, c'.ch i = (c.setCh ch q).ch i) (hq : ∀ msg ∈ q.queue, P msg)
    (h : ∀ i, ∀ msg ∈ (c.ch i).queue, P msg) (i : Nat) : ∀ msg ∈ (c'.ch i).queue, P msg := by
  rw [hch i, Connection.ch_setCh]
  split
  · exact hq
  · exact h i

end OneChannel

/-- The frame a message goes out in. -/
def frameOf (kind : Nat → Bool) (m : Nat × QueuedMessage) : Frame :=
  if kind m.1 then .reliableData m.1 m.2.sequence m.2.data else .unreliableData m.1 m.2.data

theorem length_frameOf (kind : Nat → Bool) (m : Nat × QueuedMessage) :
    (frameOf kind m).bytes.length = (if kind m.1 then 6 else 4) + m.2.data.length := by
  unfold frameOf
  by_cases h : kind m.1 = true
  · rw [if_pos h, if_pos h]
    simp [Frame.bytes]
    omega
  · rw [if_neg h, if_neg h]
    simp [Frame.bytes]
    omega

/-- The most bytes a message can have for its frame to fit behind the acknowledgement. -/
def maxSendable (reliable : Bool) : Nat := if reliable then 1186 else 1188

theorem length_frameOf_le {kind : Nat → Bool} {m : Nat × QueuedMessage}
    (h : m.2.data.length ≤ maxSendable (kind m.1)) : (frameOf kind m).bytes.length ≤ 1192 := by
  rw [length_frameOf]
  unfold maxSendable at h
  by_cases hkind : kind m.1 = true
  · rw [if_pos hkind] at h ⊢
    omega
  · rw [if_neg hkind] at h ⊢
    omega

theorem le_maxSendable {size : Nat} (h : size ≤ 1186) (reliable : Bool) :
    size ≤ maxSendable reliable := by
  unfold maxSendable
  split <;> omega

/-! ### What a send path has to offer -/

/-- The scheduler picks a channel that has a message and touches nothing but the pending
mask, and a payload is always sealed, with a 16-byte tag. -/
structure SendPath.Sound (S : SendPath Key Ct) : Prop where
  next_eq : ∀ now c, ∃ mask, (S.next now c).2 = { c with pendingMask := mask }
  next_ready : ∀ {now c i}, (S.next now c).1 = some i → i < c.numChannels ∧ (c.ch i).queue ≠ []
  next_congr : ∀ now {c c'}, SameSchedule c c' →
    (S.next now c').1 = (S.next now c).1 ∧ SameSchedule (S.next now c).2 (S.next now c').2
  seals : ∀ now e payload, ∃ packet e', S.sealPacket now e payload = (some packet, e') ∧
    S.ctLen packet.ct = payload.length + 16

theorem serverPath_sound (hC : C.Ideal) (pid : Nat) : (serverPath C pid).Sound where
  next_eq now c := ⟨_, rfl⟩
  next_ready := by
    intro now c i h
    obtain ⟨hi, hready⟩ := nextChannelFast_ready h
    exact ⟨hi, Channel.hasPending_ne_nil hready⟩
  next_congr := by
    intro now c c' h
    simp only [serverPath, h.channels, h.pendingMask, h.numChannels]
    exact ⟨trivial, h.channels, rfl, rfl⟩
  seals := by
    intro now e payload
    simp only [serverPath, serverSealData]
    generalize (if shouldRekey e now && !e.rekeyPending then prepareRekey e else e) = e'
    obtain ⟨ct, hct, henc⟩ := packetEncrypt_ideal hC e' pid
      (if e'.rekeyPending then packetPrefixDataRekey else prefixData) payload
    rw [henc]
    exact ⟨_, _, rfl, hC.tag hct⟩

theorem clientPath_sound (hC : C.Ideal) (pid : Nat) : (clientPath C pid).Sound where
  next_eq now c := ⟨c.pendingMask, rfl⟩
  next_ready := by
    intro now c i h
    obtain ⟨hi, hready⟩ := nextChannel_ready h
    exact ⟨hi, Channel.hasPending_ne_nil hready⟩
  next_congr := by
    intro now c c' h
    simp only [clientPath, h.channels, h.numChannels]
    exact ⟨trivial, h⟩
  seals := by
    intro now e payload
    obtain ⟨ct, hct, henc⟩ := packetEncrypt_ideal hC e pid prefixData payload
    simp only [clientPath, clientSealData, henc]
    exact ⟨_, _, rfl, hC.tag hct⟩

/-! ### Flushing the channels -/

/-- Flushing touches nothing but the Nagle state. -/
theorem flushChannels_eq (c : Connection Key) :
    c.flushChannels.numChannels = c.numChannels ∧ c.flushChannels.pendingMask = c.pendingMask ∧
      c.flushChannels.cdata.reliableState = c.cdata.reliableState ∧
      ∀ i, SameMessages (c.ch i) (c.flushChannels.ch i) := by
  unfold Connection.flushChannels
  generalize List.range c.numChannels = l
  induction l generalizing c with
  | nil => exact ⟨rfl, rfl, rfl, fun _ => ⟨rfl, rfl, rfl⟩⟩
  | cons j rest ih =>
    obtain ⟨hnum, hmask, hrs, hch⟩ := ih (c.setCh j (c.ch j).flush)
    refine ⟨hnum, hmask, hrs, fun i => ?_⟩
    have hi := hch i
    have hflush : SameMessages (c.ch i) ((c.setCh j (c.ch j).flush).ch i) := by
      rw [Connection.ch_setCh]
      by_cases hsame : i % 4 = j % 4
      · rw [if_pos hsame, c.ch_congr hsame]
        exact ⟨rfl, rfl, rfl⟩
      · rw [if_neg hsame]
        exact ⟨rfl, rfl, rfl⟩
    exact ⟨hi.queue.trans hflush.queue, hi.sendSeq.trans hflush.sendSeq,
      hi.config.trans hflush.config⟩

/-! ### The fuel of the loop -/

theorem queued_congr {c c' : Connection Key} (h : SameSchedule c c') : c'.queued = c.queued := by
  unfold Connection.queued
  simp only [h.ch]

theorem queued_dequeue {c : Connection Key} {ch : Nat} (hlt : ch < 4) {msg : QueuedMessage}
    {q : Channel} (hdeq : (c.ch ch).dequeueSend = (some msg, q)) :
    (c.setCh ch q).queued + 1 = c.queued := by
  obtain ⟨rest, r, hqueue, hrest, hq⟩ := Channel.dequeueSend_some hdeq
  have hsize : (c.ch ch).sendQueue.size = q.sendQueue.size + 1 := by
    rw [← FixedRingBuffer.length_toList, ← FixedRingBuffer.length_toList, hq]
    show (c.ch ch).queue.length = r.toList.length + 1
    rw [hqueue, hrest, List.length_cons]
  unfold Connection.queued
  simp only [Connection.ch_setCh, List.range_succ, List.range_zero, List.nil_append, List.map_append,
    List.map_cons, List.map_nil, List.sum_append, List.sum_cons, List.sum_nil]
  have hcases : ch = 0 ∨ ch = 1 ∨ ch = 2 ∨ ch = 3 := by omega
  rcases hcases with rfl | rfl | rfl | rfl <;> norm_num <;> omega

/-- **The fuel never decides**: with more of it than messages waiting, the loop ends for
one of the reasons the code has. -/
theorem loop_fuel_enough (hS : S.Sound) : ∀ (fuel fuel' : Nat) (next : Option Nat)
    (p : Packing Key Ct), (∀ i, next = some i → i < 4 ∧ (p.conn.ch i).queue ≠ []) →
      p.conn.queued < fuel → p.conn.queued < fuel' →
      Packing.loop S now fuel next p = Packing.loop S now fuel' next p := by
  intro fuel
  induction fuel with
  | zero => intro fuel' next p _ h; exact absurd h (Nat.not_lt_zero _)
  | succ fuel ih =>
    intro fuel' next p hnext hfuel hfuel'
    obtain ⟨fuel', rfl⟩ := Nat.exists_eq_succ_of_ne_zero (Nat.ne_zero_of_lt hfuel')
    cases next with
    | none => rfl
    | some ch =>
      obtain ⟨hlt, hne⟩ := hnext ch rfl
      obtain ⟨msg, rest, hqueue⟩ := List.exists_cons_of_ne_nil hne
      obtain ⟨q, hdeq⟩ : ∃ q, (p.conn.ch ch).dequeueSend = (some msg, q) := by
        obtain ⟨ring, -, hdeq⟩ := Channel.dequeueSend_cons hqueue
        exact ⟨_, hdeq⟩
      have hless := queued_dequeue hlt hdeq
      have hsched := pack_sameSchedule S now (p.taken ch msg q) ch msg
      rw [← round_of_some hdeq] at hsched
      cases hround : p.round S now ch with
      | leave p' => simp only [Packing.loop, hround]
      | stop p' => simp only [Packing.loop, hround]
      | proceed p' =>
        rw [loop_proceed hround, loop_proceed hround]
        rw [hround] at hsched
        obtain ⟨mask, hmask⟩ := hS.next_eq now p'.conn
        have hconn : (p'.schedule S now).2.conn = { p'.conn with pendingMask := mask } := hmask
        have hqueued : (p'.schedule S now).2.conn.queued = (p.conn.setCh ch q).queued := by
          rw [hconn]
          show p'.conn.queued = _
          exact queued_congr hsched
        refine ih fuel' _ _ (fun i hi => ?_) (by omega) (by omega)
        have hready := hS.next_ready (show (S.next now p'.conn).1 = some i from hi)
        rw [hconn]
        exact ⟨Nat.lt_of_lt_of_le hready.1 p'.conn.numChannels_le, hready.2⟩

/-! ### The parts of a round, in full -/

/-- Only the log and parts of the connection no queue is in have changed. -/
structure SameQueues (p p' : Packing Key Ct) : Prop where
  cdata : p'.conn.cdata = p.conn.cdata
  dequeued : dequeuedMessages p'.actions = dequeuedMessages p.actions
  recorded : recordedMessages p'.actions = recordedMessages p.actions

theorem flush_sound (now : Time) (hS : S.Sound) (p : Packing Key Ct) :
    ∃ p', p.flush S now = (true, p') ∧ SameQueues p p' ∧
      emittedPayloads p'.actions = emittedPayloads p.actions ++ [p.payload] ∧
      p'.conn.budget = p.conn.budget.consume (S.header + (p.payload.length + 16)) := by
  obtain ⟨packet, e', hseal, hlen⟩ := hS.seals now p.conn.keyEpoch p.payload
  simp only [Packing.flush, hseal]
  refine ⟨_, rfl, ⟨rfl, ?_, ?_⟩, ?_, ?_⟩
  -- The log grows by the packet and perhaps a rekey.
  · simp only [dequeuedMessages, rekeyedTo]
    split <;> simp
  · simp only [recordedMessages, rekeyedTo]
    split <;> simp
  · simp only [emittedPayloads, rekeyedTo]
    split <;> simp
  · simp only [hlen]

/-- A reliable message has been recorded, and no queue was touched. -/
structure Recorded (kind : Nat → Bool) (m : Nat × QueuedMessage) (p p' : Packing Key Ct) :
    Prop where
  sendSeq : ∀ i, (p'.conn.rs i).sendSeq =
    if kind m.1 = true ∧ i % 4 = m.1 % 4 then ((p.conn.rs i).sendSeq + 1) % u16Size
    else (p.conn.rs i).sendSeq
  dequeued : dequeuedMessages p'.actions = dequeuedMessages p.actions
  recorded : recordedMessages p'.actions = recordedMessages p.actions ++
    if kind m.1 = true then [(m.1, (p.conn.rs m.1).sendSeq, m.2.data)] else []

theorem SameQueues.recorded_of {kind : Nat → Bool} {m : Nat × QueuedMessage}
    {p r p' : Packing Key Ct} (hs : SameQueues p r) (h : Recorded kind m r p') :
    Recorded kind m p p' := by
  have hrs : ∀ i, r.conn.rs i = p.conn.rs i := by
    intro i
    unfold Connection.rs
    rw [hs.cdata]
  refine ⟨fun i => ?_, h.dequeued.trans hs.dequeued, ?_⟩
  · rw [h.sendSeq i, hrs i]
  · rw [h.recorded, hs.recorded, hrs m.1]

/-- The frame of the message is in the payload as well. -/
structure Wrote (kind : Nat → Bool) (m : Nat × QueuedMessage) (p p' : Packing Key Ct) : Prop
    extends Recorded kind m p p' where
  payload : p'.payload = p.payload ++ (frameOf kind m).bytes
  framesPacked : p'.framesPacked = p.framesPacked + 1
  budget : p'.conn.budget = p.conn.budget
  emitted : emittedPayloads p'.actions = emittedPayloads p.actions

theorem record_sound (now : Time) (p : Packing Key Ct) (ch : Nat) {data : Bytes} (hpos : 0 < data.length)
    (hlen : data.length ≤ mtu) : ∃ st, st.sendSeq = ((p.conn.rs ch).sendSeq + 1) % u16Size ∧
      p.record now ch data =
        { p with
          conn := p.conn.setRs ch st
          actions := p.actions ++ [.recorded ch (p.conn.rs ch).sendSeq data] } := by
  have hcond : ¬ (data.length = 0 ∨ mtu < data.length) := by omega
  simp only [Packing.record, ReliableChannelState.recordSend, if_neg hcond]
  exact ⟨_, rfl, rfl⟩

theorem addFrame_sound (now : Time) {kind : Nat → Bool} {p : Packing Key Ct} {ch : Nat} {msg : QueuedMessage}
    (hkind : p.conn.isReliable ch = kind ch) (hpos : 0 < msg.data.length)
    (hfits : p.payload.length + (frameOf kind (ch, msg)).bytes.length ≤ mtu) :
    ∃ p', p.addFrame now ch msg = (true, p') ∧ Wrote kind (ch, msg) p p' := by
  have hroom : ¬ mtu - p.payload.length < (frameOf kind (ch, msg)).bytes.length := by omega
  have hlen := length_frameOf kind (ch, msg)
  unfold Connection.isReliable at hkind
  by_cases hrel : kind ch = true
  · have hmsg : msg.data.length ≤ mtu := by
      rw [if_pos hrel] at hlen
      simp only at hlen
      omega
    obtain ⟨st, hst, hrecord⟩ := record_sound now p ch hpos hmsg
    unfold frameOf at hroom
    rw [if_pos hrel] at hroom
    simp only [Packing.addFrame, hkind, if_pos hrel, hrecord, writeReliableFrame, frameIn,
      if_neg hroom, Packing.append]
    refine ⟨_, rfl, ⟨?_, ?_, ?_⟩, ?_, rfl, rfl, ?_⟩
    · intro i
      simp only [Connection.rs_setRs]
      by_cases hsame : i % 4 = ch % 4
      · rw [if_pos hsame, if_pos ⟨hrel, hsame⟩, hst, p.conn.rs_congr hsame]
      · rw [if_neg hsame, if_neg fun hc => hsame hc.2]
    · simp [dequeuedMessages]
    · simp [recordedMessages, hrel]
    · simp only [frameOf, if_pos hrel]
    · simp [emittedPayloads]
  · unfold frameOf at hroom
    rw [if_neg hrel] at hroom
    simp only [Packing.addFrame, hkind, if_neg hrel, writeUnreliableFrame, frameIn,
      if_neg hroom, Packing.append]
    refine ⟨_, rfl, ⟨?_, rfl, ?_⟩, ?_, rfl, rfl, rfl⟩
    · intro i
      rw [if_neg fun hc => hrel hc.1]
    · simp [hrel]
    · simp only [frameOf, if_neg hrel]

/-! ### The budget of a call -/

/-- The lengths of the payloads flushed to make room, for a payload of `pos` bytes with
`packed` frames and the sizes of the frames to come. -/
def flushedLengths : Nat → Nat → List Nat → List Nat
  | _, _, [] => []
  | pos, packed, size :: rest =>
    if mtu < pos + size ∧ 0 < packed then pos :: flushedLengths (8 + size) 1 rest
    else flushedLengths (pos + size) (packed + 1) rest

/-- The bits these packets take from the budget. -/
def flushedBits (header pos packed : Nat) (sizes : List Nat) : Int :=
  ((flushedLengths pos packed sizes).map fun n => ((header + (n + 16) : Nat) : Int) * 8).sum

theorem flushedBits_nonneg (header pos packed : Nat) (sizes : List Nat) :
    0 ≤ flushedBits header pos packed sizes := by
  unfold flushedBits
  apply List.sum_nonneg
  intro x hx
  obtain ⟨n, -, rfl⟩ := List.mem_map.mp hx
  positivity

/-- The messages the scheduler hands out one after another, as if each went out at once. -/
def drainFrom (S : SendPath Key Ct) (now : Time) :
    Nat → Option Nat → Connection Key → List (Nat × QueuedMessage)
  | 0, _, _ => []
  | _ + 1, none, _ => []
  | fuel + 1, some ch, c =>
    match (c.ch ch).dequeueSend with
    | (none, _) => drainFrom S now fuel (S.next now c).1 (S.next now c).2
    | (some msg, q) =>
      (ch, msg) :: drainFrom S now fuel (S.next now (c.setCh ch q)).1
        (S.next now (c.setCh ch q)).2

/-- The messages a call can send, in order. -/
def drainOrder (S : SendPath Key Ct) (now : Time) (c : Connection Key) :
    List (Nat × QueuedMessage) :=
  drainFrom S now (c.queued + 1) (S.next now c).1 (S.next now c).2

/-- The budget of a call covers every packet it flushes to make room. -/
def BudgetCovers (S : SendPath Key Ct) (now : Time) (c : Connection Key) : Prop :=
  c.budget.canSend = true →
    c.budget.queuedBits + flushedBits S.header 8 0
      ((drainOrder S now c).map fun m => (frameOf c.isReliable m).bytes.length) ≤ 0

theorem setCh_sameSchedule {c c' : Connection Key} (h : SameSchedule c c') (ch : Nat)
    (q : Channel) : SameSchedule (c.setCh ch q) (c'.setCh ch q) := by
  refine ⟨?_, h.pendingMask, h.numChannels⟩
  show c'.cdata.channels.set ch q = c.cdata.channels.set ch q
  rw [h.channels]

theorem drainFrom_congr (hS : S.Sound) : ∀ (fuel : Nat) (next : Option Nat)
    {c c' : Connection Key}, SameSchedule c c' →
      drainFrom S now fuel next c' = drainFrom S now fuel next c := by
  intro fuel
  induction fuel with
  | zero => intro next c c' _; rfl
  | succ fuel ih =>
    intro next c c' h
    cases next with
    | none => rfl
    | some ch =>
      simp only [drainFrom, h.ch ch]
      cases hdeq : (c.ch ch).dequeueSend with
      | mk res q =>
        cases res with
        | none =>
          obtain ⟨hnext, hsame⟩ := hS.next_congr now h
          simp only [hnext, ih _ hsame]
        | some msg =>
          obtain ⟨hnext, hsame⟩ := hS.next_congr now (setCh_sameSchedule h ch q)
          simp only [hnext, ih _ hsame]

/-! ### The packet being filled -/

/-- The payload is an acknowledgement and the frames of these messages. -/
structure Filling (n : Nat) (kind : Nat → Bool) (payload : Bytes) (framesPacked : Nat)
    (cur : List (Nat × QueuedMessage)) : Prop where
  payload : ∃ ack : Bytes, ack.length = 8 ∧
    payload = ack ++ (cur.map (frameOf kind)).flatMap Frame.bytes
  framesPacked : framesPacked = cur.length
  readable : ∀ m ∈ cur, (frameOf kind m).Readable n

section Filling

variable {n : Nat} {kind : Nat → Bool} {cur : List (Nat × QueuedMessage)} {m : Nat × QueuedMessage}

theorem startPacket_filling (n : Nat) (kind : Nat → Bool) (now : Time) (p : Packing Key Ct) :
    Filling n kind (p.startPacket now).payload (p.startPacket now).framesPacked [] :=
  ⟨⟨_, length_writeAckFields _, (List.append_nil _).symm⟩, rfl,
    List.forall_mem_nil _⟩

/-- The receiver finds exactly these messages in the packet. -/
theorem Filling.carries {payload : Bytes} {k : Nat} (h : Filling n kind payload k cur)
    (hn : n ≤ 256) : payloadFrames n payload = cur.map (frameOf kind) := by
  obtain ⟨ack, hack, hpayload⟩ := h.payload
  rw [hpayload]
  apply payloadFrames_bytes hn hack
  intro f hf
  obtain ⟨m, hm, rfl⟩ := List.mem_map.mp hf
  exact h.readable m hm

theorem Filling.wrote {p p' : Packing Key Ct} (h : Filling n kind p.payload p.framesPacked cur)
    (hw : Wrote kind m p p') (hm : (frameOf kind m).Readable n) :
    Filling n kind p'.payload p'.framesPacked (cur ++ [m]) := by
  obtain ⟨ack, hack, hpayload⟩ := h.payload
  refine ⟨⟨ack, hack, ?_⟩, ?_, ?_⟩
  · rw [hw.payload, hpayload]
    simp
  · rw [hw.framesPacked, h.framesPacked, List.length_append, List.length_singleton]
  · intro x hx
    rcases List.mem_append.mp hx with hx | hx
    · exact h.readable x hx
    · rw [List.mem_singleton.mp hx]
      exact hm

/-- Room is made for the frame: it fits, or the packet is flushed first, and the budget
then still covers what is to come. -/
theorem makeRoom_sound (now : Time) (hS : S.Sound) {p : Packing Key Ct}
    (h : Filling n kind p.payload p.framesPacked cur) {size : Nat} (hsize : size ≤ 1192)
    {sizes : List Nat} (hbudget : p.conn.budget.queuedBits +
      flushedBits S.header p.payload.length p.framesPacked (size :: sizes) ≤ 0) :
    ∃ r, p.makeRoom S now size = .proceed r ∧ SameQueues p r ∧ r.payload.length + size ≤ mtu ∧
      r.conn.budget.queuedBits +
        flushedBits S.header (r.payload.length + size) (r.framesPacked + 1) sizes ≤ 0 ∧
      (r = p ∨ emittedPayloads r.actions = emittedPayloads p.actions ++ [p.payload] ∧
        Filling n kind r.payload r.framesPacked []) := by
  by_cases hflush : mtu < p.payload.length + size ∧ 0 < p.framesPacked
  · obtain ⟨p', hp', hsame, hemit, hcost⟩ := flush_sound now hS p
    simp only [flushedBits, flushedLengths, if_pos hflush, List.map_cons, List.sum_cons] at hbudget
    have hrest := flushedBits_nonneg S.header (8 + size) 1 sizes
    have hspent : p'.conn.budget.queuedBits + flushedBits S.header (8 + size) 1 sizes ≤ 0 := by
      rw [hcost]
      unfold QueuedBitsBudget.consume flushedBits
      simp only
      omega
    have hcan : p'.conn.budget.canSend = true := by
      unfold QueuedBitsBudget.canSend
      exact decide_eq_true (by omega)
    have hfill := startPacket_filling n kind now p'
    refine ⟨p'.startPacket now, ?_, ⟨hsame.cdata, hsame.dequeued, hsame.recorded⟩, ?_, ?_,
      Or.inr ⟨hemit, hfill⟩⟩
    · simp only [Packing.makeRoom, if_pos hflush, hp', hcan, if_true]
    · show (writeAckFields _).length + size ≤ 1200
      rw [length_writeAckFields]
      omega
    · show p'.conn.budget.queuedBits +
        flushedBits S.header ((writeAckFields _).length + size) (0 + 1) sizes ≤ 0
      rw [length_writeAckFields]
      exact hspent
  · refine ⟨p, ?_, ⟨rfl, rfl, rfl⟩, ?_, ?_, Or.inl rfl⟩
    · rw [Packing.makeRoom, if_neg hflush]
    · by_cases hpos : 0 < p.framesPacked
      · exact Nat.le_of_not_lt fun hc => hflush ⟨hc, hpos⟩
      · -- Nothing is packed, so the payload is the acknowledgement alone.
        obtain ⟨ack, hack, hpayload⟩ := h.payload
        have hnil : cur = [] := List.length_eq_zero_iff.mp (by rw [← h.framesPacked]; omega)
        rw [hpayload, hnil]
        simp only [List.map_nil, List.flatMap_nil, List.append_nil, hack]
        unfold mtu
        omega
    · simpa only [flushedBits, flushedLengths, if_neg hflush] using hbudget

/-- A message is packed: its frame joins the packet, or starts the next one after the
packet has been sent. -/
theorem pack_sound (now : Time) (hS : S.Sound) {p : Packing Key Ct} {ch : Nat}
    {msg : QueuedMessage} (h : Filling n kind p.payload p.framesPacked cur)
    (hkind : p.conn.isReliable ch = kind ch) (hpos : 0 < msg.data.length)
    (hle : msg.data.length ≤ maxSendable (kind ch)) (hread : (frameOf kind (ch, msg)).Readable n)
    {sizes : List Nat} (hbudget : p.conn.budget.queuedBits + flushedBits S.header p.payload.length
      p.framesPacked ((frameOf kind (ch, msg)).bytes.length :: sizes) ≤ 0) :
    ∃ p' cur', p.pack S now ch msg = .proceed p' ∧ Recorded kind (ch, msg) p p' ∧
      Filling n kind p'.payload p'.framesPacked cur' ∧
      p'.conn.budget.queuedBits +
        flushedBits S.header p'.payload.length p'.framesPacked sizes ≤ 0 ∧
      (cur' = cur ++ [(ch, msg)] ∧ emittedPayloads p'.actions = emittedPayloads p.actions ∨
        cur' = [(ch, msg)] ∧
          emittedPayloads p'.actions = emittedPayloads p.actions ++ [p.payload]) := by
  have hlen := length_frameOf kind (ch, msg)
  have hneeded : p.frameNeeded ch msg = (frameOf kind (ch, msg)).bytes.length := by
    rw [hlen, ← hkind]
    rfl
  obtain ⟨r, hr, hsame, hfits, hbud, hcase⟩ :=
    makeRoom_sound now hS h (length_frameOf_le hle) hbudget
  have hkindr : r.conn.isReliable ch = kind ch := by
    rw [← hkind]
    unfold Connection.isReliable Connection.ch
    rw [hsame.cdata]
  obtain ⟨p', hp', hw⟩ := addFrame_sound now hkindr hpos hfits
  have hpack : p.pack S now ch msg = .proceed p' := by
    simp only [Packing.pack, hneeded, hr, hp']
  have hspent : p'.conn.budget.queuedBits +
      flushedBits S.header p'.payload.length p'.framesPacked sizes ≤ 0 := by
    rw [hw.budget, hw.payload, hw.framesPacked, List.length_append]
    exact hbud
  have hrec := hsame.recorded_of hw.toRecorded
  rcases hcase with hfit | ⟨hemit, hfresh⟩
  · subst hfit
    exact ⟨p', _, hpack, hrec, h.wrote hw hread, hspent, Or.inl ⟨rfl, hw.emitted⟩⟩
  · exact ⟨p', _, hpack, hrec, hfresh.wrote hw hread, hspent,
      Or.inr ⟨rfl, hw.emitted.trans hemit⟩⟩

end Filling

end Netudp
