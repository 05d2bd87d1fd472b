/-
Nothing is lost between a queue and the wire.

A message leaves its queue before the packet it does not fit into is flushed, and the
flush may exhaust the budget, upon which the loop returns with the message in hand.  As
long as the budget covers the packets flushed to make room, every message taken out of
a queue is in exactly one packet, in the order it was queued, and a reliable one under
the sequence the reliability layer has stored it under: the channel and the reliability
layer count the same messages.

`Ledger` is that accounting; it is kept through every round of the loop, with the
messages of the packet being filled set apart.
-/
import Netudp.Proofs.SendPath

namespace Netudp

open Lib

variable {Key Ct : Type} {C : Primitives Key Ct} {S : SendPath Key Ct} {now : Time}

/-! ### The accounts -/

/-- What belongs to channel `i`, in order. -/
def onChannel {α : Type} (i : Nat) (l : List (Nat × α)) : List α :=
  (l.filter fun m => m.1 == i).map Prod.snd

theorem onChannel_append {α : Type} (i : Nat) (as bs : List (Nat × α)) :
    onChannel i (as ++ bs) = onChannel i as ++ onChannel i bs := by
  simp [onChannel]

theorem onChannel_singleton {α : Type} (i j : Nat) (a : α) :
    onChannel i [(j, a)] = if j = i then [a] else [] := by
  by_cases h : j = i
  · simp [onChannel, h]
  · simp [onChannel, h]

/-- Consecutive 16-bit sequences from `s`, with `next` the one after the last. -/
def Sequenced : Nat → List QueuedMessage → Nat → Prop
  | s, [], next => next = s
  | s, msg :: rest, next => msg.sequence = s ∧ Sequenced ((s + 1) % u16Size) rest next

theorem Sequenced.push {msg : QueuedMessage} : ∀ {l : List QueuedMessage} {s next : Nat},
    Sequenced s l next → msg.sequence = next →
      Sequenced s (l ++ [msg]) ((next + 1) % u16Size) := by
  intro l
  induction l with
  | nil =>
    intro s next h hmsg
    have hnext : next = s := h
    exact ⟨hmsg.trans hnext, by rw [hnext]; rfl⟩
  | cons first rest ih =>
    intro s next h hmsg
    exact ⟨h.1, ih h.2 hmsg⟩

/-- The queues against what was accepted and what was taken out; on a reliable channel
the queue continues the sequence the reliability layer will give next. -/
structure Queues (n : Nat) (kind : Nat → Bool) (accepted : List (Nat × Bytes))
    (taken : List (Nat × QueuedMessage)) (c : Connection Key) : Prop where
  numChannels : c.numChannels = n
  kinds : ∀ i, c.isReliable i = kind i
  fifo : ∀ i, i < 4 → onChannel i accepted =
    (onChannel i taken ++ (c.ch i).queue).map QueuedMessage.data
  sequenced : ∀ i, kind i = true → (c.rs i).sendSeq < u16Size ∧
    Sequenced (c.rs i).sendSeq (c.ch i).queue (c.ch i).sendSeq
  sized : ∀ i, ∀ msg ∈ (c.ch i).queue, 0 < msg.data.length ∧ msg.data.length ≤ 1186

section Accounts

variable {n : Nat} {kind : Nat → Bool} {accepted : List (Nat × Bytes)}
  {taken : List (Nat × QueuedMessage)} {c c' : Connection Key} {ch : Nat} {msg : QueuedMessage}
  {q : Channel}

/-- The accounts read the queues, the counters and the kinds of the channels only. -/
theorem Queues.congr (h : Queues n kind accepted taken c) (hnum : c'.numChannels = c.numChannels)
    (hch : ∀ i, SameMessages (c.ch i) (c'.ch i))
    (hrs : ∀ i, (c'.rs i).sendSeq = (c.rs i).sendSeq) : Queues n kind accepted taken c' where
  numChannels := hnum.trans h.numChannels
  kinds := by
    intro i
    rw [← h.kinds i]
    unfold Connection.isReliable
    rw [(hch i).config]
  fifo := by
    intro i hi
    rw [(hch i).queue]
    exact h.fifo i hi
  sequenced := by
    intro i hi
    rw [(hch i).queue, (hch i).sendSeq, hrs i]
    exact h.sequenced i hi
  sized := by
    intro i
    rw [(hch i).queue]
    exact h.sized i

/-- The oldest message of a queue can be written and read back; a reliable one carries
the sequence `record_send` will store it under. -/
theorem Queues.head (h : Queues n kind accepted taken c) (hlt : ch < n)
    {rest : List QueuedMessage} (hqueue : (c.ch ch).queue = msg :: rest) :
    (0 < msg.data.length ∧ msg.data.length ≤ 1186) ∧ (frameOf kind (ch, msg)).Readable n ∧
      (kind ch = true → msg.sequence = (c.rs ch).sendSeq) := by
  have hsized := h.sized ch msg (by rw [hqueue]; exact List.mem_cons_self)
  have hlen : msg.data.length < u16Size := by
    unfold u16Size
    omega
  have hseq : kind ch = true → msg.sequence = (c.rs ch).sendSeq ∧ (c.rs ch).sendSeq < u16Size := by
    intro hkind
    have hs := h.sequenced ch hkind
    rw [hqueue] at hs
    exact ⟨hs.2.1, hs.1⟩
  refine ⟨hsized, ?_, fun hkind => (hseq hkind).1⟩
  unfold frameOf
  by_cases hkind : kind ch = true
  · rw [if_pos hkind]
    refine ⟨hlt, ?_, hlen⟩
    rw [(hseq hkind).1]
    exact (hseq hkind).2
  · rw [if_neg hkind]
    exact ⟨hlt, hlen⟩

/-- A message is taken, and counted by the reliability layer if its channel is reliable. -/
theorem Queues.take (h : Queues n kind accepted taken c) (hlt : ch < n)
    (hdeq : (c.ch ch).dequeueSend = (some msg, q)) (hnum : c'.numChannels = n)
    (hch : ∀ i, c'.ch i = (c.setCh ch q).ch i)
    (hrs : ∀ i, (c'.rs i).sendSeq = if kind ch = true ∧ i % 4 = ch % 4
      then ((c.rs i).sendSeq + 1) % u16Size else (c.rs i).sendSeq) :
    Queues n kind accepted (taken ++ [(ch, msg)]) c' := by
  obtain ⟨rest, r, hqueue, hrest, hq⟩ := Channel.dequeueSend_some hdeq
  have hqqueue : q.queue = rest := by
    rw [hq]
    exact hrest
  have hn4 : n ≤ 4 := h.numChannels ▸ c.numChannels_le
  have hkindmod : ∀ i, i % 4 = ch % 4 → kind i = kind ch := by
    intro i hsame
    rw [← h.kinds i, ← h.kinds ch]
    unfold Connection.isReliable
    rw [c.ch_congr hsame]
  refine ⟨hnum, fun i => ?_, fun i hi => ?_, fun i hkind => ?_, ?_⟩
  · exact (isReliable_of_setCh hch (by rw [hq]) i).trans (h.kinds i)
  · rw [h.fifo i hi, hch i, Connection.ch_setCh, onChannel_append, onChannel_singleton]
    by_cases hsame : ch = i
    · subst hsame
      rw [if_pos rfl, if_pos rfl, hqqueue, hqueue]
      simp
    · rw [if_neg hsame, if_neg (by omega), List.append_nil]
  · rw [hch i, Connection.ch_setCh, hrs i]
    have hold := h.sequenced i hkind
    by_cases hsame : i % 4 = ch % 4
    · rw [if_pos hsame, if_pos ⟨(hkindmod i hsame) ▸ hkind, hsame⟩]
      rw [c.ch_congr hsame, hqueue] at hold
      refine ⟨Nat.mod_lt _ (by decide), ?_⟩
      rw [hqqueue, hq]
      exact hold.2.2
    · rw [if_neg hsame, if_neg fun hc => hsame hc.2]
      exact hold
  · refine forall_queue_of_setCh hch (fun m hm => h.sized ch m ?_) h.sized
    rw [hqueue]
    exact List.mem_cons_of_mem msg (hqqueue ▸ hm)


/-- What was taken is what the packets carry, as the receiver reads them, with `cur`
still to be sent. -/
def Packed (n : Nat) (kind : Nat → Bool) (payloads : List Bytes)
    (taken cur : List (Nat × QueuedMessage)) : Prop :=
  ∃ packets : List (List (Nat × QueuedMessage)),
    List.Forall₂ (fun payload msgs => payloadFrames n payload = msgs.map (frameOf kind))
      payloads packets ∧
    taken = packets.flatten ++ cur

theorem Packed.take {payloads : List Bytes} {cur : List (Nat × QueuedMessage)}
    (h : Packed n kind payloads taken cur) (m : Nat × QueuedMessage) :
    Packed n kind payloads (taken ++ [m]) (cur ++ [m]) := by
  obtain ⟨packets, hall, htaken⟩ := h
  exact ⟨packets, hall, by rw [htaken, List.append_assoc]⟩

theorem Packed.emit {payloads : List Bytes} {sent cur : List (Nat × QueuedMessage)}
    {payload : Bytes} (h : Packed n kind payloads taken (sent ++ cur))
    (hcarries : payloadFrames n payload = sent.map (frameOf kind)) :
    Packed n kind (payloads ++ [payload]) taken cur := by
  obtain ⟨packets, hall, htaken⟩ := h
  refine ⟨packets ++ [sent], ?_, ?_⟩
  · exact List.rel_append hall (List.Forall₂.cons hcarries List.Forall₂.nil)
  · rw [htaken, List.flatten_append, List.flatten_singleton, List.append_assoc]

/-- What `record_send` is given for a message. -/
def recordOf (m : Nat × QueuedMessage) : Nat × Nat × Bytes := (m.1, m.2.sequence, m.2.data)

/-- The accounts of the log, the messages `cur` of the packet being filled set apart. -/
structure Ledger (n : Nat) (kind : Nat → Bool) (accepted : List (Nat × Bytes))
    (acts : List (SendAction Key Ct)) (c : Connection Key) (cur : List (Nat × QueuedMessage)) :
    Prop where
  queues : Queues n kind accepted (dequeuedMessages acts) c
  recorded : recordedMessages acts =
    ((dequeuedMessages acts).filter fun m => kind m.1).map recordOf
  packed : Packed n kind (emittedPayloads acts) (dequeuedMessages acts) cur

theorem Ledger.le {acts : List (SendAction Key Ct)} {cur : List (Nat × QueuedMessage)}
    (h : Ledger n kind accepted acts c cur) : n ≤ 256 :=
  h.queues.numChannels ▸ Nat.le_trans c.numChannels_le (by decide)

end Accounts

/-! ### The loop -/

section Loop

variable {n : Nat} {kind : Nat → Bool} {accepted : List (Nat × Bytes)}
  {log : List (SendAction Key Ct)} {cur : List (Nat × QueuedMessage)} {p : Packing Key Ct}
  {ch : Nat} {msg : QueuedMessage} {q : Channel}

/-- A round whose flush the budget covers takes a message and accounts for it. -/
theorem round_sound (now : Time) (hS : S.Sound) (h : Ledger n kind accepted (log ++ p.actions) p.conn cur)
    (hfill : Filling n kind p.payload p.framesPacked cur) (hlt : ch < n)
    (hdeq : (p.conn.ch ch).dequeueSend = (some msg, q)) {sizes : List Nat}
    (hbudget : p.conn.budget.queuedBits + flushedBits S.header p.payload.length p.framesPacked
      ((frameOf kind (ch, msg)).bytes.length :: sizes) ≤ 0) :
    ∃ p' cur', p.round S now ch = .proceed p' ∧ SameSchedule (p.conn.setCh ch q) p'.conn ∧
      Ledger n kind accepted (log ++ p'.actions) p'.conn cur' ∧
      Filling n kind p'.payload p'.framesPacked cur' ∧
      p'.conn.budget.queuedBits +
        flushedBits S.header p'.payload.length p'.framesPacked sizes ≤ 0 := by
  obtain ⟨rest, ring, hqueue, -, hq⟩ := Channel.dequeueSend_some hdeq
  obtain ⟨⟨hpos, hle⟩, hread, hseq⟩ := h.queues.head hlt hqueue
  have hkind : (p.taken ch msg q).conn.isReliable ch = kind ch := by
    rw [← h.queues.kinds ch]
    show ((p.conn.setCh ch q).ch ch).config.type.isReliable = _
    rw [Connection.ch_setCh, if_pos rfl, hq]
    rfl
  obtain ⟨p', cur', hpack, hrec, hfill', hspent, hcase⟩ :=
    pack_sound (p := p.taken ch msg q) now hS hfill hkind hpos (le_maxSendable hle _) hread hbudget
  have hsched : SameSchedule (p.conn.setCh ch q) p'.conn := by
    have hsame := pack_sameSchedule S now (p.taken ch msg q) ch msg
    rw [hpack] at hsame
    exact hsame
  have htaken : dequeuedMessages (log ++ p'.actions)
      = dequeuedMessages (log ++ p.actions) ++ [(ch, msg)] := by
    rw [dequeuedMessages_append, hrec.dequeued]
    simp [Packing.taken, dequeuedMessages]
  refine ⟨p', cur', (round_of_some hdeq).trans hpack, hsched, ⟨?_, ?_, ?_⟩, hfill', hspent⟩
  · rw [htaken]
    exact h.queues.take hlt hdeq (hsched.numChannels.trans h.queues.numChannels) hsched.ch
      hrec.sendSeq
  · have hold := h.recorded
    rw [recordedMessages_append] at hold
    rw [recordedMessages_append, hrec.recorded, htaken, List.filter_append, List.map_append, ← hold]
    by_cases hk : kind ch = true
    · simp [Packing.taken, recordedMessages, hk, recordOf, hseq hk]
    · simp [Packing.taken, recordedMessages, hk]
  · have hold := h.packed.take (ch, msg)
    have hemit : emittedPayloads (p.taken ch msg q).actions = emittedPayloads p.actions := by
      simp [Packing.taken, emittedPayloads]
    rw [htaken, emittedPayloads_append]
    rcases hcase with ⟨rfl, hsame⟩ | ⟨rfl, hsent⟩
    · -- The frame has joined the packet.
      rw [hsame, hemit, ← emittedPayloads_append]
      exact hold
    · -- The packet has gone out, and the frame starts the next one.
      rw [hsent, hemit, ← List.append_assoc, ← emittedPayloads_append]
      exact hold.emit (hfill.carries h.le)

/-- Asking the scheduler changes no account. -/
theorem Ledger.schedule (hS : S.Sound) (now : Time)
    (h : Ledger n kind accepted (log ++ p.actions) p.conn cur) :
    Ledger n kind accepted (log ++ (p.schedule S now).2.actions) (p.schedule S now).2.conn cur ∧
      (p.schedule S now).2.conn.budget = p.conn.budget ∧
      ∀ i, (p.schedule S now).1 = some i →
        i < n ∧ ((p.schedule S now).2.conn.ch i).queue ≠ [] := by
  obtain ⟨mask, hmask⟩ := hS.next_eq now p.conn
  have hconn : (p.schedule S now).2.conn = { p.conn with pendingMask := mask } := hmask
  rw [hconn]
  refine ⟨⟨h.queues.congr rfl (fun i => ⟨rfl, rfl, rfl⟩) (fun i => rfl), h.recorded, h.packed⟩,
    rfl, fun i hi => ?_⟩
  rw [← h.queues.numChannels]
  exact hS.next_ready hi

/-- The loop sends on, as long as the budget covers what it flushes. -/
theorem loop_sound (hS : S.Sound) : ∀ (fuel : Nat) (next : Option Nat) (p : Packing Key Ct)
    (cur : List (Nat × QueuedMessage)),
    Ledger n kind accepted (log ++ p.actions) p.conn cur →
    Filling n kind p.payload p.framesPacked cur →
    (∀ i, next = some i → i < n ∧ (p.conn.ch i).queue ≠ []) →
    p.conn.budget.queuedBits + flushedBits S.header p.payload.length p.framesPacked
      ((drainFrom S now fuel next p.conn).map fun m => (frameOf kind m).bytes.length) ≤ 0 →
    ∃ p' cur', Packing.loop S now fuel next p = (true, p') ∧
      Ledger n kind accepted (log ++ p'.actions) p'.conn cur' ∧
      Filling n kind p'.payload p'.framesPacked cur' := by
  intro fuel
  induction fuel with
  | zero => intro next p cur h hfill _ _; exact ⟨p, cur, rfl, h, hfill⟩
  | succ fuel ih =>
    intro next p cur h hfill hnext hbudget
    cases next with
    | none => exact ⟨p, cur, rfl, h, hfill⟩
    | some ch =>
      obtain ⟨hlt, hne⟩ := hnext ch rfl
      obtain ⟨msg, rest, hqueue⟩ := List.exists_cons_of_ne_nil hne
      obtain ⟨ring, -, hdeq⟩ := Channel.dequeueSend_cons hqueue
      simp only [drainFrom, hdeq, List.map_cons] at hbudget
      obtain ⟨p', cur', hround, hsched, h', hfill', hspent⟩ :=
        round_sound now hS h hfill hlt hdeq hbudget
      -- The scheduler sees what it would have seen, and the order goes on from there.
      obtain ⟨hsame, horder⟩ := hS.next_congr now hsched
      obtain ⟨h'', hbud, hready⟩ := h'.schedule hS now
      have hdrain : drainFrom S now fuel (p'.schedule S now).1 (p'.schedule S now).2.conn = _ :=
        drainFrom_congr hS fuel _ horder
      rw [loop_proceed hround]
      refine ih _ _ cur' h'' hfill' hready ?_
      rw [hbud, hdrain, show (p'.schedule S now).1 = _ from hsame]
      exact hspent

theorem Ledger.flush (hS : S.Sound) (now : Time)
    (h : Ledger n kind accepted (log ++ p.actions) p.conn cur)
    (hfill : Filling n kind p.payload p.framesPacked cur) :
    Ledger n kind accepted (log ++ (p.flush S now).2.actions) (p.flush S now).2.conn [] := by
  have hsched := flush_sameSchedule S now p
  obtain ⟨p', hflush, hsame, hemit, -⟩ := flush_sound now hS p
  rw [hflush] at hsched ⊢
  have htaken : dequeuedMessages (log ++ p'.actions) = dequeuedMessages (log ++ p.actions) := by
    rw [dequeuedMessages_append, hsame.dequeued, ← dequeuedMessages_append]
  refine ⟨?_, ?_, ?_⟩
  · rw [htaken]
    refine h.queues.congr hsched.numChannels (fun i => ?_) (fun i => ?_)
    · rw [hsched.ch i]
      exact ⟨rfl, rfl, rfl⟩
    · unfold Connection.rs
      rw [hsame.cdata]
  · rw [recordedMessages_append, hsame.recorded, ← recordedMessages_append, htaken]
    exact h.recorded
  · rw [htaken, emittedPayloads_append, hemit, ← List.append_assoc, ← emittedPayloads_append]
    have hpacked := h.packed
    rw [← List.append_nil cur] at hpacked
    exact hpacked.emit (hfill.carries h.le)

/-- **A call whose budget covers what it flushes loses nothing.** -/
theorem sendPending_sound (hS : S.Sound) {c : Connection Key}
    (h : Ledger n kind accepted log c []) (hbudget : BudgetCovers S now c) :
    Ledger n kind accepted (log ++ (sendPending S now c).2) (sendPending S now c).1 [] := by
  unfold sendPending
  by_cases hcan : c.budget.canSend = true
  · rw [if_neg (by simp [hcan])]
    have hstart : Ledger n kind accepted
        (log ++ ((⟨c, [], 0, []⟩ : Packing Key Ct).startPacket now).actions)
        ((⟨c, [], 0, []⟩ : Packing Key Ct).startPacket now).conn [] := by
      show Ledger n kind accepted (log ++ []) c []
      rw [List.append_nil]
      exact h
    obtain ⟨h1, hbud, hready⟩ := hstart.schedule hS now
    have hcovers := hbudget hcan
    rw [show c.isReliable = kind from funext h.queues.kinds] at hcovers
    obtain ⟨p', cur', hloop, h2, hfill⟩ := loop_sound hS (c.queued + 1) _ _ [] h1
      (startPacket_filling n kind now ⟨c, [], 0, []⟩) hready (by
        rw [hbud]
        show c.budget.queuedBits + flushedBits S.header (writeAckFields _).length 0 _ ≤ 0
        rw [length_writeAckFields]
        exact hcovers)
    simp only [hloop, Bool.true_and]
    by_cases hpos : 0 < p'.framesPacked
    · rw [if_pos (decide_eq_true hpos)]
      exact h2.flush hS now hfill
    · rw [if_neg (by simpa using hpos)]
      have hnil : cur' = [] := List.length_eq_zero_iff.mp (by rw [← hfill.framesPacked]; omega)
      rw [hnil] at h2
      exact h2
  · rw [if_pos (by simp [hcan]), List.append_nil]
    exact h

end Loop

end Netudp
