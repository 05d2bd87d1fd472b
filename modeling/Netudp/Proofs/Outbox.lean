/-
An endpoint's sends, over whole runs.

The application sends on the channels, the update loop calls the send path, and the
budget is whatever the congestion control has made of it.  `sendPath_loses_nothing`
follows the messages of such a run from the queues into the packets, for the server's
and for the client's send path.
-/
import Netudp.Proofs.Ledger

namespace Netudp

open Lib

variable {Key Ct : Type} {C : Primitives Key Ct} {pid : Nat} {ep : Endpoint} {now : Time}

/-! ### The system -/

/-- The endpoint's send loop. -/
def Endpoint.sendPath (C : Primitives Key Ct) (pid : Nat) : Endpoint → SendPath Key Ct
  | .server => serverPath C pid
  | .client => clientPath C pid

/-- The connection with the message queued, ready for the send loop. -/
def Endpoint.queueMessage (ep : Endpoint) (c : Connection Key) (now : Time) (channel : Nat)
    (data : Bytes) (flags : SendFlags) : Option (Connection Key) :=
  match ep with
  | .server => c.queueMessage now channel data flags
  | .client => c.clientQueueMessage now channel data flags

/-- `netudp_server_send` and `netudp_client_send`. -/
def Endpoint.send (C : Primitives Key Ct) (pid : Nat) (now : Time) (c : Connection Key)
    (channel : Nat) (data : Bytes) (flags : SendFlags) :
    Endpoint → SendResult × Connection Key × List (SendAction Key Ct)
  | .server => serverSend C pid now c channel data flags
  | .client => clientSend C pid now c channel data flags

/-- `netudp_server_flush` and `netudp_client_flush`. -/
def Endpoint.flush (C : Primitives Key Ct) (pid : Nat) (now : Time) (c : Connection Key) :
    Endpoint → Connection Key × List (SendAction Key Ct)
  | .server => serverFlush C pid now c
  | .client => clientFlush C pid now c

/-- A connection, the messages accepted for it, and everything the send path did. -/
structure Outbox (Key Ct : Type) where
  conn : Connection Key
  accepted : List (Nat × Bytes)
  actions : List (SendAction Key Ct)

/-- Nothing has been sent yet. -/
def Outbox.start (c : Connection Key) : Outbox Key Ct := ⟨c, [], []⟩

/-- What happens to an outbox. -/
inductive OutboxEvent where
  /-- The application sends a message. -/
  | send (channel : Nat) (data : Bytes) (flags : SendFlags)
  /-- The application flushes the channels. -/
  | flush
  /-- The update loop calls the send path. -/
  | pending
  /-- The budget becomes this one, by a refill or otherwise. -/
  | budget (budget : QueuedBitsBudget)

/-- The outbox after the event at the time. -/
def outboxStep (C : Primitives Key Ct) (pid : Nat) (ep : Endpoint) (s : Outbox Key Ct) :
    Time × OutboxEvent → Outbox Key Ct
  | (now, .send channel data flags) =>
    let (result, c, acts) := ep.send C pid now s.conn channel data flags
    { conn := c
      accepted := if result = .ok then s.accepted ++ [(channel, data)] else s.accepted
      actions := s.actions ++ acts }
  | (now, .flush) =>
    let (c, acts) := ep.flush C pid now s.conn
    { s with conn := c, actions := s.actions ++ acts }
  | (now, .pending) =>
    let (c, acts) := sendPending (ep.sendPath C pid) now s.conn
    { s with conn := c, actions := s.actions ++ acts }
  | (_, .budget budget) => { s with conn := { s.conn with budget := budget } }

/-- A message sent is at most 1186 bytes long. -/
def OutboxEvent.Small : OutboxEvent → Prop
  | .send _ data _ => data.length ≤ 1186
  | _ => True

instance (ev : OutboxEvent) : Decidable ev.Small := by
  cases ev <;> dsimp only [OutboxEvent.Small] <;> infer_instance

/-- Where the event calls the send path, the budget covers what it flushes to make room. -/
def BudgetLasts (C : Primitives Key Ct) (pid : Nat) (ep : Endpoint) (s : Outbox Key Ct) :
    Time × OutboxEvent → Prop
  | (now, .send channel data flags) =>
    hasFlag flags sendNoDelay = true →
      ∀ c, ep.queueMessage s.conn now channel data flags = some c →
        BudgetCovers (ep.sendPath C pid) now c
  | (now, .flush) => BudgetCovers (ep.sendPath C pid) now s.conn.flushChannels
  | (now, .pending) => BudgetCovers (ep.sendPath C pid) now s.conn
  | (_, .budget _) => True

theorem Endpoint.sendPath_sound (hC : C.Ideal) (pid : Nat) :
    ∀ ep : Endpoint, (ep.sendPath C pid).Sound
  | .server => serverPath_sound hC pid
  | .client => clientPath_sound hC pid

/-! ### Queueing -/

section Queueing

variable {n : Nat} {kind : Nat → Bool} {accepted : List (Nat × Bytes)}
  {taken : List (Nat × QueuedMessage)} {c c' : Connection Key} {channel : Nat} {data : Bytes}
  {flags : SendFlags}

/-- Either endpoint queues the message on its channel and leaves the others alone. -/
theorem queueMessage_eq (h : ep.queueMessage c now channel data flags = some c') :
    ∃ q q' mask, (c.ch channel).queueSend data flags = (true, q) ∧ SameMessages q q' ∧
      c' = { c.setCh channel q' with pendingMask := mask } := by
  cases ep with
  | server =>
    simp only [Endpoint.queueMessage, Connection.queueMessage] at h
    split at h
    · exact absurd h (by simp)
    · rename_i q hq
      have hn := startNagle_sameMessages q now
      rw [Option.some.injEq, markPending_setCh] at h
      by_cases hflag : hasFlag flags sendNoDelay = true
      · rw [if_pos hflag] at h
        refine ⟨q, (q.startNagle now).flush, c.pendingMask ||| maskBit channel, hq,
          ⟨hn.queue, hn.sendSeq, hn.config⟩, ?_⟩
        rw [← h]
        show Connection.setCh { c.setCh channel (q.startNagle now) with
            pendingMask := c.pendingMask ||| maskBit channel } channel
          ((c.setCh channel (q.startNagle now)).ch channel).flush = _
        rw [Connection.ch_setCh_self]
        unfold Connection.setCh
        simp only [Table.set_set]
      · rw [if_neg hflag] at h
        exact ⟨q, _, _, hq, hn, h.symm⟩
  | client =>
    simp only [Endpoint.queueMessage, Connection.clientQueueMessage] at h
    split at h
    · exact absurd h (by simp)
    · rename_i q hq
      have hn := startNagle_sameMessages q now
      rw [Option.some.injEq] at h
      by_cases hflag : hasFlag flags sendNoDelay = true
      · rw [if_pos hflag, Connection.ch_setCh_self, Connection.setCh_setCh] at h
        exact ⟨q, (q.startNagle now).flush, c.pendingMask, hq,
          ⟨hn.queue, hn.sendSeq, hn.config⟩, h.symm⟩
      · rw [if_neg hflag] at h
        exact ⟨q, q.startNagle now, c.pendingMask, hq, hn, h.symm⟩

theorem Queues.enqueue (h : Queues n kind accepted taken c) (hlt : channel < n)
    (hsmall : data.length ≤ 1186)
    (hq : ep.queueMessage c now channel data flags = some c') :
    Queues n kind (accepted ++ [(channel, data)]) taken c' := by
  obtain ⟨q, q', mask, hsend, hsame, rfl⟩ := queueMessage_eq hq
  obtain ⟨⟨hpos, -⟩, hqueue, hseq, hconfig, -⟩ := Channel.queueSend_true hsend
  have hn4 : n ≤ 4 := h.numChannels ▸ c.numChannels_le
  have hch : ∀ i, ({ c.setCh channel q' with pendingMask := mask } : Connection Key).ch i
      = if i % 4 = channel % 4 then q' else c.ch i := fun i => c.ch_setCh channel i q'
  have hqueue' : q'.queue = (c.ch channel).queue ++ [⟨data, (c.ch channel).sendSeq, 0, flags, true⟩] :=
    hsame.queue.trans hqueue
  refine ⟨h.numChannels, fun i => ?_, fun i hi => ?_, fun i hkind => ?_, ?_⟩
  · exact (isReliable_of_setCh (fun _ => rfl) (hsame.config.trans hconfig) i).trans (h.kinds i)
  · rw [onChannel_append, onChannel_singleton, h.fifo i hi, hch i]
    by_cases heq : channel = i
    · subst heq
      rw [if_pos rfl, if_pos rfl, hqueue']
      simp
    · rw [if_neg heq, if_neg (by omega), List.append_nil]
  · show (c.rs i).sendSeq < u16Size ∧ _
    have hold := h.sequenced i hkind
    rw [hch i]
    by_cases hmod : i % 4 = channel % 4
    · rw [c.ch_congr hmod] at hold
      rw [if_pos hmod, hqueue', hsame.sendSeq, hseq]
      exact ⟨hold.1, hold.2.push rfl⟩
    · rw [if_neg hmod]
      exact hold
  · refine forall_queue_of_setCh (fun _ => rfl) (fun msg hmsg => ?_) h.sized
    rw [hqueue'] at hmsg
    rcases List.mem_append.mp hmsg with hold | hnew
    · exact h.sized channel msg hold
    · rw [List.mem_singleton.mp hnew]
      exact ⟨hpos, hsmall⟩

end Queueing

/-! ### Whole runs -/

/-- The accounts of an outbox between two calls of the send path. -/
def Balanced (n : Nat) (kind : Nat → Bool) (s : Outbox Key Ct) : Prop :=
  Ledger n kind s.accepted s.actions s.conn []

section Runs

variable {n : Nat} {kind : Nat → Bool} {s : Outbox Key Ct}

theorem start_balanced (c : Connection Key) (configs : List ChannelConfig) (time : Time) :
    Balanced (c.initSubsystems configs time).numChannels (c.initSubsystems configs time).isReliable
      (.start (c.initSubsystems configs time) : Outbox Key Ct) := by
  have hnew := initSubsystems_ch c configs time
  show Ledger _ _ [] [] (c.initSubsystems configs time) []
  refine ⟨⟨rfl, fun i => rfl, fun i _ => ?_, fun i _ => ?_, fun i => ?_⟩, rfl, [], .nil, rfl⟩
  · rw [(hnew i).1]
    rfl
  · rw [(hnew i).1, (hnew i).2]
    exact ⟨show 0 < u16Size by decide, rfl⟩
  · intro msg hmsg
    rw [(hnew i).1] at hmsg
    exact absurd hmsg List.not_mem_nil

/-- A send that is accepted is queued, and only sent further with NO_DELAY. -/
theorem Endpoint.send_cases (C : Primitives Key Ct) (pid : Nat) (now : Time) (c : Connection Key)
    (channel : Nat) (data : Bytes) (flags : SendFlags) (ep : Endpoint) :
    (ep.send C pid now c channel data flags).1 ≠ .ok ∧
        (ep.send C pid now c channel data flags).2 = (c, []) ∨
      ∃ c', channel < c.numChannels ∧ ep.queueMessage c now channel data flags = some c' ∧
        ep.send C pid now c channel data flags = (.ok,
          if hasFlag flags sendNoDelay then sendPending (ep.sendPath C pid) now c' else (c', [])) := by
  cases ep with
  | server =>
    simp only [Endpoint.send, Endpoint.queueMessage, Endpoint.sendPath, serverSend]
    split
    · exact Or.inl ⟨by simp, rfl⟩
    split
    · exact Or.inl ⟨by simp, rfl⟩
    rename_i hlt
    cases hq : c.queueMessage now channel data flags with
    | none => exact Or.inl ⟨by simp, rfl⟩
    | some c' =>
      refine Or.inr ⟨c', by omega, rfl, ?_⟩
      by_cases hflag : hasFlag flags sendNoDelay = true
      · simp only [if_pos hflag]
        rfl
      · simp only [if_neg hflag]
  | client =>
    simp only [Endpoint.send, Endpoint.queueMessage, Endpoint.sendPath, clientSend]
    split
    · exact Or.inl ⟨by simp, rfl⟩
    rename_i hlt
    cases hq : c.clientQueueMessage now channel data flags with
    | none => exact Or.inl ⟨by simp, rfl⟩
    | some c' =>
      refine Or.inr ⟨c', by omega, rfl, ?_⟩
      by_cases hflag : hasFlag flags sendNoDelay = true
      · simp only [if_pos hflag]
        rfl
      · simp only [if_neg hflag]

theorem Ledger.flushChannels {accepted : List (Nat × Bytes)} {acts : List (SendAction Key Ct)}
    {c : Connection Key} (h : Ledger n kind accepted acts c []) :
    Ledger n kind accepted acts c.flushChannels [] := by
  obtain ⟨hnum, -, hrs, hch⟩ := flushChannels_eq c
  refine ⟨h.queues.congr hnum hch fun i => ?_, h.recorded, h.packed⟩
  unfold Connection.rs
  rw [hrs]

theorem outboxStep_balanced (hC : C.Ideal) (hs : Balanced n kind s) (ev : Time × OutboxEvent)
    (hsmall : ev.2.Small) (hev : BudgetLasts C pid ep s ev) :
    Balanced n kind (outboxStep C pid ep s ev) := by
  have hS := ep.sendPath_sound hC pid
  obtain ⟨now, ev⟩ := ev
  cases ev with
  | send channel data flags =>
    rcases ep.send_cases C pid now s.conn channel data flags with
      ⟨hres, hrest⟩ | ⟨c', hlt, hq, hsend⟩
    · simp only [outboxStep, if_neg hres, hrest, List.append_nil]
      exact hs
    · have hqueued : Ledger n kind (s.accepted ++ [(channel, data)]) s.actions c' [] :=
        ⟨hs.queues.enqueue (hs.queues.numChannels ▸ hlt) hsmall hq, hs.recorded, hs.packed⟩
      simp only [outboxStep, hsend, if_true]
      by_cases hflag : hasFlag flags sendNoDelay = true
      · rw [if_pos hflag]
        exact sendPending_sound hS hqueued (hev hflag c' hq)
      · rw [if_neg hflag]
        show Ledger n kind (s.accepted ++ [(channel, data)]) (s.actions ++ []) c' []
        rw [List.append_nil]
        exact hqueued
  | flush =>
    have hflushed := sendPending_sound hS hs.flushChannels hev
    cases ep with
    | server =>
      simp only [outboxStep, Endpoint.flush, serverFlush]
      split
      · rw [List.append_nil]
        exact hs
      · exact hflushed
    | client => exact hflushed
  | pending => exact sendPending_sound hS hs hev
  | budget budget =>
    exact ⟨hs.queues.congr rfl (fun i => ⟨rfl, rfl, rfl⟩) fun i => rfl, hs.recorded, hs.packed⟩

/--
**The send path loses no message**, on either endpoint, as long as the budget covers
every packet that is flushed to make room: what was taken out of the queues is what the
packets carry, each message once; each channel's messages are taken in the order they
were accepted, and what is not taken is still queued; and `record_send` stored exactly
the reliable ones, under the sequences their frames carry.
-/
theorem sendPath_loses_nothing (C : Primitives Key Ct) (hC : C.Ideal) (pid : Nat) (ep : Endpoint)
    (c : Connection Key) (configs : List ChannelConfig) (time : Time)
    (es : List (Time × OutboxEvent)) (hsmall : ∀ ev ∈ es, ev.2.Small)
    (hes : Along (outboxStep C pid ep) (BudgetLasts C pid ep)
      (.start (c.initSubsystems configs time)) es) :
    let s := run (outboxStep C pid ep) (.start (c.initSubsystems configs time)) es
    (∃ packets : List (List (Nat × QueuedMessage)),
      List.Forall₂ (fun payload msgs =>
          payloadFrames s.conn.numChannels payload = msgs.map (frameOf s.conn.isReliable))
        (emittedPayloads s.actions) packets ∧
      dequeuedMessages s.actions = packets.flatten) ∧
    (∀ i, i < 4 → onChannel i s.accepted =
      (onChannel i (dequeuedMessages s.actions) ++ (s.conn.ch i).queue).map QueuedMessage.data) ∧
    recordedMessages s.actions =
      ((dequeuedMessages s.actions).filter fun m => s.conn.isReliable m.1).map recordOf := by
  intro s
  have hboth : Along (outboxStep C pid ep) (fun s ev => ev.2.Small ∧ BudgetLasts C pid ep s ev)
      (.start (c.initSubsystems configs time)) es :=
    along_and.mpr ⟨along_of_forall hsmall, hes⟩
  have hbal : Balanced (c.initSubsystems configs time).numChannels
      (c.initSubsystems configs time).isReliable s :=
    run_invariant (Balanced _ _)
      (fun _ ev hs hev => outboxStep_balanced hC hs ev hev.1 hev.2)
      (start_balanced c configs time) hboth
  rw [show s.conn.isReliable = _ from funext hbal.queues.kinds, hbal.queues.numChannels]
  obtain ⟨packets, hall, htaken⟩ := hbal.packed
  rw [List.append_nil] at htaken
  exact ⟨⟨packets, hall, htaken⟩, hbal.queues.fifo, hbal.recorded⟩

end Runs

/-- Two messages of 700 bytes, which do not fit into one packet. -/
def twoBigMessages : List (Time × OutboxEvent) :=
  [(1, .send 0 (List.replicate 700 1) 0), (1, .send 0 (List.replicate 700 2) 0), (1, .pending)]

/-- With budget for both packets both messages are sent and recorded. -/
theorem sendPath_sends_both :
    let s := run (outboxStep toyCipher 7 .server)
      (.start (toyConnection.initSubsystems [{ type := .reliableOrdered }] 1))
      ((1, .budget ⟨-20000, 262144⟩) :: twoBigMessages)
    (emittedPayloads s.actions).length = 2 ∧ recordedMessages s.actions =
      ((dequeuedMessages s.actions).filter fun m => s.conn.isReliable m.1).map recordOf := by
  refine ⟨by decide +kernel, (sendPath_loses_nothing toyCipher toyCipher_ideal 7 .server
    toyConnection [{ type := .reliableOrdered }] 1
    ((1, .budget ⟨-20000, 262144⟩) :: twoBigMessages) (by decide +kernel) ?_).2.2⟩
  refine ⟨trivial, fun h => absurd h (by decide), fun h => absurd h (by decide), ?_, trivial⟩
  intro _
  decide +kernel

/-- The two messages with a budget of zero, and a third one once it is refilled. -/
def lossyRun (ep : Endpoint) : Outbox Nat (Sealed Nat) :=
  run (outboxStep toyCipher 7 ep)
    (.start (toyConnection.initSubsystems [{ type := .reliableOrdered }] 1))
    (twoBigMessages ++ [(2, .budget {}), (2, .send 0 [9] 0), (2, .pending)])

/-- The first packet exhausts the budget and the second message is gone, at either
endpoint: it has left its queue and is in no packet.  From then on the channel is one
sequence ahead of the reliability layer: the third message goes out as number 2 and is
stored as number 1. -/
theorem sendPath_loses_message :
    ((dequeuedMessages (lossyRun .server).actions).length = 3 ∧
      (emittedPayloads (lossyRun .server).actions).flatMap (payloadFrames 1) =
        [.reliableData 0 0 (List.replicate 700 1), .reliableData 0 2 [9]] ∧
      recordedMessages (lossyRun .server).actions =
        [(0, 0, List.replicate 700 1), (0, 1, [9])]) ∧
    (dequeuedMessages (lossyRun .client).actions).length = 3 ∧
      (emittedPayloads (lossyRun .client).actions).flatMap (payloadFrames 1) =
        [.reliableData 0 0 (List.replicate 700 1), .reliableData 0 2 [9]] ∧
      recordedMessages (lossyRun .client).actions =
        [(0, 0, List.replicate 700 1), (0, 1, [9])] := by
  decide +kernel

end Netudp
