/-
Which packets are timed.

An acknowledgement names a packet, and the handlers of both endpoints take a round-trip
sample from the time that packet was sent.  Whether the packet was acknowledged before is
known to `process_acks` only; the sample is taken in any case, as long as the record of
the packet is there.  A packet is sampled again with every acknowledgement that repeats
it, and `on_packet_received` is only ever given number 0, so every acknowledgement of the
other endpoint repeats the first one.

A run says beside the connection which packet each record is of.  Between two packets
received the endpoint may do anything that records packets and leaves the estimator
alone, which is what all its calls are; whoever acknowledges each packet once gets one
sample of it.
-/
import Netudp.Proofs.Calls
import Netudp.Proofs.Outbox
import Netudp.Proofs.PacketTracker

namespace Netudp

open Lib

variable {Key Ct : Type}

/-! ### What a handler does with an acknowledgement -/

/-- `server_handle_data_packet` and `client_handle_data_packet`. -/
def Endpoint.handlePacket (C : Primitives Key Ct) (pid : Nat) (now : Time) (c : Connection Key)
    (packet : Packet Ct) : Endpoint → Connection Key
  | .server => (serverHandleDataPacket C pid now c packet).1
  | .client => (clientHandleDataPacket C pid now c packet).1

/-- The acknowledgement the handler reads, if the packet opens and has one. -/
def Endpoint.ackFields (C : Primitives Key Ct) (pid : Nat) (now : Time) (c : Connection Key)
    (packet : Packet Ct) (ep : Endpoint) : Option AckFields :=
  if C.ctLen packet.ct < 1 then none
  else
    match ep.openPacket C pid now c.keyEpoch packet with
    | (none, _) => none
    | (some plaintext, _) =>
      if plaintext.length < 8 then none else some (readAckFields plaintext)

/-- The packet named was sent at this time: `on_sample` is called. -/
def PacketTracker.sampleTime (t : PacketTracker) (fields : AckFields) : Option Time :=
  let sendTime := (t.processAcks fields).2.getSendTime fields.ack
  if 0 < sendTime then some sendTime else none

theorem applyFrame_rtt (now : Time) (c : Connection Key) (frame : Frame) :
    (c.applyFrame now frame).books.rtt = c.books.rtt := by
  rw [applyFrame_eq_foldl, foldl_deliver_cdata]
  show ((c.onFrame now frame).2.countFrame _ frame).books.rtt = _
  rw [onFrame_cdata]
  cases frame <;> rfl

theorem applyFrames_rtt (now : Time) (frames : List Frame) : ∀ c : Connection Key,
    (c.applyFrames now frames).1.books.rtt = c.books.rtt := by
  induction frames with
  | nil => exact fun c => rfl
  | cons frame rest ih =>
    intro c
    have hrest := (ih (c.applyFrame now frame)).trans (applyFrame_rtt now c frame)
    cases frame with
    | disconnect reason => rfl
    | unreliableData ch data => exact hrest
    | reliableData ch msgSeq data => exact hrest
    | fragmentData ch msgId fragIdx fragCnt data => exact hrest

/-- The connection before the frames are walked over. -/
def Endpoint.openFrames (C : Primitives Key Ct) (pid : Nat) (now : Time) (c : Connection Key)
    (packet : Packet Ct) : Endpoint → Connection Key
  | .server => (serverOpenFrames C pid now c packet).1
  | .client => (clientOpenFrames C pid now c packet).1

theorem handlePacket_openFrames (C : Primitives Key Ct) (pid : Nat) (now : Time)
    (c : Connection Key) (packet : Packet Ct) (ep : Endpoint) :
    (ep.handlePacket C pid now c packet).packetTracker =
        (ep.openFrames C pid now c packet).packetTracker ∧
      (ep.handlePacket C pid now c packet).books.rtt =
        (ep.openFrames C pid now c packet).books.rtt := by
  cases ep with
  | server =>
    simp only [Endpoint.handlePacket, Endpoint.openFrames, serverHandleDataPacket_eq]
    refine ⟨?_, applyFrames_rtt now _ _⟩
    rw [applyFrames_cdata]
  | client =>
    simp only [Endpoint.handlePacket, Endpoint.openFrames, clientHandleDataPacket]
    have hrtt := applyFrames_rtt now (clientOpenFrames C pid now c packet).2
      (clientOpenFrames C pid now c packet).1
    have htracker : ((clientOpenFrames C pid now c packet).1.applyFrames now
        (clientOpenFrames C pid now c packet).2).1.packetTracker =
        (clientOpenFrames C pid now c packet).1.packetTracker := by
      rw [applyFrames_cdata]
    split
    · rename_i h
      rw [h] at hrtt htracker
      exact ⟨htracker, hrtt⟩
    · rename_i h
      rw [h] at hrtt htracker
      exact ⟨htracker, hrtt⟩

theorem acknowledged_rtt (b : Bookkeeping) (newlyAcked : Nat) (sendTime now : Time)
    (ackDelayUs : Nat) :
    (b.acknowledged newlyAcked sendTime now ackDelayUs).rtt =
      match (if 0 < sendTime then some sendTime else none) with
      | none => b.rtt
      | some sendTime => b.rtt.onSample sendTime now ackDelayUs := by
  unfold Bookkeeping.acknowledged
  by_cases hpos : 0 < sendTime
  · simp [hpos]
  · simp [hpos]

/-- **What a handler does with a packet**, at either endpoint: without an acknowledgement
nothing is marked and nothing timed; with one it is processed, and `on_sample` is called
if the packet it names has a record. -/
theorem handlePacket_cases (C : Primitives Key Ct) (pid : Nat) (now : Time) (c : Connection Key)
    (packet : Packet Ct) (ep : Endpoint) :
    (ep.ackFields C pid now c packet = none ∧
      (ep.handlePacket C pid now c packet).packetTracker = c.packetTracker ∧
      (ep.handlePacket C pid now c packet).books.rtt = c.books.rtt) ∨
    ∃ fields, ep.ackFields C pid now c packet = some fields ∧
      (ep.handlePacket C pid now c packet).packetTracker =
        (c.packetTracker.processAcks fields).2.onPacketReceived 0 now ∧
      (ep.handlePacket C pid now c packet).books.rtt =
        match c.packetTracker.sampleTime fields with
        | none => c.books.rtt
        | some sendTime => c.books.rtt.onSample sendTime now fields.ackDelayUs := by
  obtain ⟨htracker, hrtt⟩ := handlePacket_openFrames C pid now c packet ep
  rw [htracker, hrtt]
  cases ep with
  | server =>
    simp only [Endpoint.ackFields, Endpoint.openPacket, Endpoint.openFrames, serverOpenFrames]
    by_cases hlen : C.ctLen packet.ct < 1
    · simp [hlen]
    cases hopen : serverOpenPacket C pid now c.keyEpoch packet with
    | mk plaintext e =>
      cases plaintext with
      | none => simp [hlen, Bookkeeping.decryptFailed]
      | some plaintext =>
        by_cases hshort : plaintext.length < 8
        · simp [hlen, hshort, Bookkeeping.packetReceived]
        · simp only [if_neg hlen, if_neg hshort]
          exact Or.inr ⟨_, rfl, rfl, acknowledged_rtt _ _ _ _ _⟩
  | client =>
    simp only [Endpoint.ackFields, Endpoint.openPacket, Endpoint.openFrames, clientOpenFrames]
    by_cases hlen : C.ctLen packet.ct < 1
    · simp [hlen]
    cases hopen : clientOpenPacket C pid c.keyEpoch packet with
    | mk plaintext e =>
      cases plaintext with
      | none => simp [hlen, Bookkeeping.decryptFailed]
      | some plaintext =>
        by_cases hshort : plaintext.length < 8
        · simp [hlen, hshort, Bookkeeping.packetReceived]
        · simp only [if_neg hlen, if_neg hshort]
          exact Or.inr ⟨_, rfl, rfl, acknowledged_rtt _ _ _ _ _⟩

/-! ### Runs -/

/-- A connection, how many packets it has recorded, which of them each record is of, and
the packets `on_sample` was called for, with whether they were not acknowledged before. -/
structure RttRun (Key : Type) where
  conn : Connection Key
  sent : Nat := 0
  owner : Table 33 (Option Nat) := .fill none
  samples : List (Option Nat × Bool) := []

/-- What happens to a connection. -/
inductive RttEvent (Key Ct : Type) where
  /-- The handler is given a packet. -/
  | packet (packet : Packet Ct)
  /-- A call that sends: it records so many packets, and whatever else it changes, the
  connection is then `conn`. -/
  | sends (count : Nat) (conn : Connection Key)

/-- `send_packet`. -/
def RttRun.record (now : Time) (r : RttRun Key) : RttRun Key :=
  { r with
    conn := { r.conn with packetTracker := r.conn.packetTracker.sendPacket now }
    sent := r.sent + 1
    owner := r.owner.set r.conn.packetTracker.sendSequence (some r.sent) }

/-- The packets the acknowledgement makes the handler sample. -/
def RttRun.sampled (r : RttRun Key) : Option AckFields → List (Option Nat × Bool)
  | none => []
  | some fields =>
    match r.conn.packetTracker.sampleTime fields with
    | none => []
    | some _ => [(r.owner.get fields.ack, !r.conn.packetTracker.isAcked fields.ack)]

/-- The connection with the tracker and the estimator of another one. -/
def Connection.withTiming (c old : Connection Key) : Connection Key :=
  { c with
    packetTracker := old.packetTracker
    books := { c.books with rtt := old.books.rtt } }

/-- One event at the endpoint. -/
def rttStep (C : Primitives Key Ct) (pid : Nat) (ep : Endpoint) (r : RttRun Key) :
    Time × RttEvent Key Ct → RttRun Key
  | (now, .packet packet) =>
    { r with
      conn := ep.handlePacket C pid now r.conn packet
      samples := r.samples ++ r.sampled (ep.ackFields C pid now r.conn packet) }
  | (now, .sends count conn) =>
    let r := (RttRun.record now)^[count] r
    { r with conn := conn.withTiming r.conn }

/-- An acknowledgement that is processed names a packet that was not acknowledged before. -/
def AcksNew (C : Primitives Key Ct) (pid : Nat) (ep : Endpoint) (r : RttRun Key) :
    Time × RttEvent Key Ct → Prop
  | (now, .packet packet) => ∀ fields ∈ ep.ackFields C pid now r.conn packet,
      r.conn.packetTracker.isAcked fields.ack = false
  | (_, .sends _ _) => True

instance (C : Primitives Key Ct) (pid : Nat) (ep : Endpoint) (r : RttRun Key)
    (ev : Time × RttEvent Key Ct) : Decidable (AcksNew C pid ep r ev) := by
  unfold AcksNew
  split <;> infer_instance

/-! ### Calls are such events -/

/-- The call records packets, and leaves the estimator alone. -/
structure OnlyRecords (now : Time) (c c' : Connection Key) : Prop where
  tracker : ∃ count, c'.packetTracker = (fun t => t.sendPacket now)^[count] c.packetTracker
  rtt : c'.books.rtt = c.books.rtt

/-- **Every call that sends only records packets**, at either endpoint. -/
theorem onlyRecords_callKeeps (S : SendPath Key Ct) (C : Primitives Key Ct) (pid : Nat)
    (now : Time) : CallKeeps S C pid now fun c _ c' => OnlyRecords now c c' where
  quiet _ h := ⟨⟨0, h.packetTracker⟩, h.rtt⟩
  trans := by
    rintro c c' c'' as bs ⟨⟨count, h⟩, hrtt⟩ ⟨⟨count', h'⟩, hrtt'⟩
    refine ⟨⟨count' + count, ?_⟩, hrtt'.trans hrtt⟩
    rw [Function.iterate_add_apply, ← h, h']
  data _ h := ⟨⟨1, h.packetTracker⟩, h.rtt⟩
  keepalive _ h := ⟨⟨1, h.packetTracker⟩, h.rtt⟩

theorem iterate_record_conn (now : Time) (count : Nat) : ∀ r : RttRun Key,
    ((RttRun.record now)^[count] r).conn = { r.conn with
      packetTracker := (fun t => t.sendPacket now)^[count] r.conn.packetTracker } := by
  induction count with
  | zero => exact fun r => rfl
  | succ count ih =>
    intro r
    rw [Function.iterate_succ_apply, ih, Function.iterate_succ_apply]
    rfl

/-- So it is an event of a run. -/
theorem OnlyRecords.event (C : Primitives Key Ct) (pid : Nat) (ep : Endpoint) {now : Time}
    {r : RttRun Key} {c' : Connection Key} (h : OnlyRecords now r.conn c') :
    ∃ count, (rttStep C pid ep r (now, .sends count c')).conn = c' := by
  obtain ⟨⟨count, htracker⟩, hrtt⟩ := h
  refine ⟨count, ?_⟩
  simp only [rttStep, iterate_record_conn, Connection.withTiming]
  rw [← htracker, ← hrtt]

/-- A slot's calls, between the client that is accepted and the end of its connection. -/
theorem slotStep_onlyRecords (C : Primitives Key Ct) (cfg : ServerConfig) (slot : Nat)
    (c : Connection Key) (now : Time) (ev : SlotEvent Key Ct)
    (haccept : ∀ from_ token, ev ≠ .accept from_ token) (hpacket : ∀ packet, ev ≠ .packet packet)
    (htimeout : c.timedOut now = false) :
    OnlyRecords now c (slotStep C cfg slot c (now, ev)).1 := by
  have hkeeps := onlyRecords_callKeeps (serverPath C cfg.protocolId) C cfg.protocolId now
  cases ev with
  | accept from_ token => exact absurd rfl (haccept from_ token)
  | packet packet => exact absurd rfl (hpacket packet)
  | send channel data flags => exact hkeeps.serverSend c channel data flags
  | sendState channel entityId data => exact hkeeps.serverSendState c channel entityId data
  | flush => exact hkeeps.serverFlush c
  | update dt visited =>
    simp only [slotStep, htimeout]
    split
    · exact hkeeps.refl c
    · split
      · exact absurd ‹_› Bool.false_ne_true
      · split
        · exact hkeeps.serverUpdateConnection dt c
        · exact hkeeps.refl c

/-- A connected client's calls. -/
theorem client_onlyRecords {Ct : Type} (C : Primitives KeyBytes Ct) (cfg : ClientConfig)
    (c : Client) (now dt : Time) (channel : Nat) (data : Bytes) (flags : SendFlags) :
    OnlyRecords now c.conn (clientSend C cfg.protocolId now c.conn channel data flags).2.1 ∧
      OnlyRecords now c.conn (clientFlush C cfg.protocolId now c.conn).1 ∧
      OnlyRecords now c.conn (c.updateConnected C cfg now dt).1.conn := by
  have hkeeps := onlyRecords_callKeeps (clientPath C cfg.protocolId) C cfg.protocolId now
  obtain ⟨-, -, hupdate⟩ := hkeeps.clientUpdateConnected dt c
  exact ⟨hkeeps.clientSend c.conn channel data flags, hkeeps.clientFlush c.conn, hupdate⟩

/-! ### One sample for each packet -/

/-- Every record in use has an owner of its own, and what was sampled are different
packets, each acknowledged then and for the first time. -/
structure Timed (r : RttRun Key) (packets : List Nat) : Prop where
  unused : ∀ k, r.owner.get k = none → (r.conn.packetTracker.sent.get k).sendTime = 0
  sent : ∀ k j, r.owner.get k = some j → j < r.sent
  own : ∀ k k' j, r.owner.get k = some j → r.owner.get k' = some j → k % 33 = k' % 33
  samples : r.samples = packets.map fun j => (some j, true)
  nodup : packets.Nodup
  recorded : ∀ j ∈ packets, j < r.sent
  acked : ∀ j ∈ packets, ∀ k, r.owner.get k = some j →
    (r.conn.packetTracker.sent.get k).acked = true

section Timed

variable {r : RttRun Key} {packets : List Nat}

theorem Timed.start (c : Connection Key) (configs : List ChannelConfig) (time : Time) :
    Timed { conn := c.initSubsystems configs time } [] where
  unused _ _ := rfl
  sent _ _ h := by cases h
  own _ _ _ h := by cases h
  samples := rfl
  nodup := List.nodup_nil
  recorded _ h := absurd h List.not_mem_nil
  acked _ h := absurd h List.not_mem_nil

/-- Only the records, the owners and the samples matter. -/
theorem Timed.congr {r' : RttRun Key} (h : Timed r packets)
    (hsent : ∀ k, r'.conn.packetTracker.sent.get k = r.conn.packetTracker.sent.get k)
    (hcount : r'.sent = r.sent) (howner : r'.owner = r.owner) (hsamples : r'.samples = r.samples) :
    Timed r' packets where
  unused k := by
    rw [howner, hsent]
    exact h.unused k
  sent k := by
    rw [howner, hcount]
    exact h.sent k
  own k := by
    rw [howner]
    exact h.own k
  samples := hsamples.trans h.samples
  nodup := h.nodup
  recorded := by
    rw [hcount]
    exact h.recorded
  acked j hj k := by
    rw [howner, hsent]
    exact h.acked j hj k

/-- A packet is recorded: its record has a new owner. -/
theorem Timed.record (now : Time) (h : Timed r packets) : Timed (r.record now) packets := by
  have howner : ∀ k, (r.record now).owner.get k =
      if k % 33 = r.conn.packetTracker.sendSequence % 33 then some r.sent else r.owner.get k :=
    fun k => Table.get_set _ _ _ _
  have hrecord : ∀ k, (r.record now).conn.packetTracker.sent.get k =
      if k % 33 = r.conn.packetTracker.sendSequence % 33 then
        ⟨now, r.conn.packetTracker.sendSequence, false⟩
      else r.conn.packetTracker.sent.get k := fun k => Table.get_set _ _ _ _
  refine ⟨fun k hk => ?_, fun k j hk => ?_, fun k k' j hk hk' => ?_, h.samples, h.nodup,
    fun j hj => Nat.lt_succ_of_lt (h.recorded j hj), fun j hj k hk => ?_⟩
  · rw [howner] at hk
    split at hk
    · cases hk
    · rename_i hne
      rw [hrecord, if_neg hne]
      exact h.unused k hk
  · rw [howner] at hk
    split at hk
    · exact Nat.lt_succ_of_le (Option.some.inj hk).ge
    · exact Nat.lt_succ_of_lt (h.sent k j hk)
  · -- The new owner is none of the old ones.
    rw [howner] at hk hk'
    split at hk
    · rename_i hslot
      split at hk'
      · rename_i hslot'
        exact hslot.trans hslot'.symm
      · have hlt := h.sent k' j hk'
        rw [← Option.some.inj hk] at hlt
        exact absurd hlt (Nat.lt_irrefl _)
    · split at hk'
      · have hlt := h.sent k j hk
        rw [← Option.some.inj hk'] at hlt
        exact absurd hlt (Nat.lt_irrefl _)
      · exact h.own k k' j hk hk'
  · rw [howner] at hk
    split at hk
    · have hlt := h.recorded j hj
      rw [← Option.some.inj hk] at hlt
      exact absurd hlt (Nat.lt_irrefl _)
    · rename_i hne
      rw [hrecord, if_neg hne]
      exact h.acked j hj k hk

/-- What is sampled has a record that was sent, and the record carries the number named. -/
theorem sampleTime_some {t : PacketTracker} {fields : AckFields} {sendTime : Time}
    (h : t.sampleTime fields = some sendTime) :
    (t.sent.get fields.ack).sequence = fields.ack ∧ (t.sent.get fields.ack).sendTime ≠ 0 := by
  simp only [PacketTracker.sampleTime, PacketTracker.getSendTime,
    (PacketTracker.processAcks_counters t fields).2, PacketTracker.markedIn] at h
  split at h
  · rename_i hseq
    split at h
    · rename_i hpos
      exact ⟨hseq, ne_of_gt hpos⟩
    · cases h
  · -- Without its record the time is `-1`.
    rw [if_neg (by norm_num)] at h
    cases h

/-- A record in use that is not acknowledged belongs to a packet not sampled yet. -/
theorem Timed.owner_unsampled (h : Timed r packets) {ack : Nat}
    (hseq : (r.conn.packetTracker.sent.get ack).sequence = ack)
    (htime : (r.conn.packetTracker.sent.get ack).sendTime ≠ 0)
    (hnew : r.conn.packetTracker.isAcked ack = false) :
    ∃ j, r.owner.get ack = some j ∧ j ∉ packets := by
  cases hown : r.owner.get ack with
  | none => exact absurd (h.unused ack hown) htime
  | some j =>
    refine ⟨j, rfl, ?_⟩
    intro hmem
    rw [PacketTracker.isAcked_iff.mpr ⟨h.acked j hmem ack hown, hseq⟩] at hnew
    cases hnew

/-- An acknowledgement of a packet not acknowledged before samples it for the first time. -/
theorem Timed.acks (h : Timed r packets) {fields : AckFields} {conn : Connection Key}
    (hsent : ∀ k, conn.packetTracker.sent.get k =
      PacketTracker.markedIn fields.named k (r.conn.packetTracker.sent.get k))
    (hnew : r.conn.packetTracker.isAcked fields.ack = false) :
    ∃ packets', Timed
      { r with conn := conn, samples := r.samples ++ r.sampled (some fields) } packets' := by
  have hacked : ∀ j ∈ packets, ∀ k, r.owner.get k = some j →
      (conn.packetTracker.sent.get k).acked = true := by
    intro j hj k hk
    rw [hsent, PacketTracker.markedIn_of_acked (h.acked j hj k hk)]
    exact h.acked j hj k hk
  have hunused : ∀ k, r.owner.get k = none → (conn.packetTracker.sent.get k).sendTime = 0 := by
    intro k hk
    rw [hsent]
    exact h.unused k hk
  cases hsample : r.conn.packetTracker.sampleTime fields with
  | none =>
    refine ⟨packets, hunused, h.sent, h.own, ?_, h.nodup, h.recorded, hacked⟩
    simp only [RttRun.sampled, hsample, List.append_nil]
    exact h.samples
  | some sendTime =>
    obtain ⟨hseq, htime⟩ := sampleTime_some hsample
    obtain ⟨j, hj, hfresh⟩ := h.owner_unsampled hseq htime hnew
    refine ⟨packets ++ [j], hunused, h.sent, h.own, ?_, ?_, ?_, ?_⟩
    · simp [RttRun.sampled, hsample, h.samples, hj, hnew]
    · exact List.nodup_append.mpr ⟨h.nodup, List.nodup_singleton j, fun a ha b hb hab =>
        hfresh (by rwa [← List.mem_singleton.mp hb, ← hab])⟩
    · intro i hi
      rcases List.mem_append.mp hi with hold | hlast
      · exact h.recorded i hold
      · rw [List.mem_singleton.mp hlast]
        exact h.sent fields.ack j hj
    · intro i hi k hk
      rcases List.mem_append.mp hi with hold | hlast
      · exact hacked i hold k hk
      · -- The only record of the packet is the one that has just been marked.
        rw [List.mem_singleton.mp hlast] at hk
        have hslot := h.own k fields.ack j hk hj
        have hget : r.conn.packetTracker.sent.get k = r.conn.packetTracker.sent.get fields.ack :=
          Table.get_congr _ hslot
        rw [hsent, hget]
        simp [PacketTracker.markedIn, hseq, hslot, AckFields.named]

theorem rttStep_timed (C : Primitives Key Ct) (pid : Nat) (ep : Endpoint) (r : RttRun Key)
    (ev : Time × RttEvent Key Ct) (h : ∃ packets, Timed r packets) (hnew : AcksNew C pid ep r ev) :
    ∃ packets, Timed (rttStep C pid ep r ev) packets := by
  obtain ⟨packets, h⟩ := h
  obtain ⟨now, ev⟩ := ev
  cases ev with
  | packet packet =>
    simp only [rttStep]
    rcases handlePacket_cases C pid now r.conn packet ep with
      ⟨hnone, htracker, -⟩ | ⟨fields, hsome, htracker, -⟩
    · refine ⟨packets, h.congr (fun k => ?_) rfl rfl ?_⟩
      · simp only [htracker]
      · simp [hnone, RttRun.sampled]
    · rw [hsome]
      refine h.acks (fun k => ?_) (hnew fields hsome)
      rw [htracker, (PacketTracker.onPacketReceived_sent _ _ _).1,
        (PacketTracker.processAcks_counters _ _).2]
  | sends count conn =>
    have hrecorded : Timed ((RttRun.record now)^[count] r) packets := by
      induction count with
      | zero => exact h
      | succ count ih =>
        rw [Function.iterate_succ_apply']
        exact (ih trivial).record now
    exact ⟨packets, hrecorded.congr (fun _ => rfl) rfl rfl rfl⟩

/--
**Each packet is sampled at most once, when it is first acknowledged**, in every run of a
connection at either endpoint in which no acknowledgement names a packet that was
acknowledged before.
-/
theorem packet_sampled_once (C : Primitives Key Ct) (pid : Nat) (ep : Endpoint)
    (c : Connection Key) (configs : List ChannelConfig) (time : Time)
    (es : List (Time × RttEvent Key Ct))
    (hnew : Along (rttStep C pid ep) (AcksNew C pid ep)
      { conn := c.initSubsystems configs time } es) :
    ∃ packets : List Nat, packets.Nodup ∧
      (∀ j ∈ packets,
        j < (run (rttStep C pid ep) { conn := c.initSubsystems configs time } es).sent) ∧
      (run (rttStep C pid ep) { conn := c.initSubsystems configs time } es).samples =
        packets.map fun j => (some j, true) := by
  obtain ⟨packets, h⟩ := run_invariant (fun r : RttRun Key => ∃ packets, Timed r packets)
    (rttStep_timed C pid ep) ⟨[], Timed.start c configs time⟩ hnew
  exact ⟨packets, h.nodup, h.recorded, h.samples⟩

end Timed

/-- The packet of the other endpoint with this nonce, acknowledging number `ack`. -/
def ackPacket (nonce ack : Nat) : Packet (Sealed Nat) :=
  ⟨prefixData, ⟨0, buildNonce nonce, buildAad 7 prefixData, writeAckFields { ack := ack }⟩⟩

/-- Two packets sent at time 1 and two received, whose acknowledgements name these numbers;
the server's peer begins with nonce 0, the client's with 1. -/
def twoAcks (ep : Endpoint) (first second : Nat) : List (Time × RttEvent Nat (Sealed Nat)) :=
  let nonce := if ep = .server then 0 else 1
  [(1, .sends 2 (toyConnection.initSubsystems [{}] 1)), (2, .packet (ackPacket nonce first)),
    (3, .packet (ackPacket (nonce + 1) second))]

/-- Acknowledged one after the other, each is sampled. -/
theorem both_packets_sampled :
    (run (rttStep toyCipher 7 .server) { conn := toyConnection.initSubsystems [{}] 1 }
        (twoAcks .server 0 1)).samples = [(some 0, true), (some 1, true)] ∧
    ∃ packets : List Nat, packets.Nodup ∧
      (∀ j ∈ packets, j < (run (rttStep toyCipher 7 .server)
        { conn := toyConnection.initSubsystems [{}] 1 } (twoAcks .server 0 1)).sent) ∧
      (run (rttStep toyCipher 7 .server) { conn := toyConnection.initSubsystems [{}] 1 }
        (twoAcks .server 0 1)).samples = packets.map fun j => (some j, true) :=
  ⟨by decide +kernel, packet_sampled_once toyCipher 7 .server toyConnection [{}] 1
    (twoAcks .server 0 1) (by decide +kernel)⟩

/-- A connection that receives two acknowledgements of its first packet. -/
def ackedTwice (ep : Endpoint) : RttRun Nat :=
  run (rttStep toyCipher 7 ep) { conn := toyConnection.initSubsystems [{}] 1 } (twoAcks ep 0 0)

/-- They are two samples of it, at either endpoint. -/
theorem packet_sampled_twice :
    ((ackedTwice .server).samples = [(some 0, true), (some 0, false)] ∧
        (ackedTwice .server).conn.books.congestion.rttSamples = 2) ∧
      (ackedTwice .client).samples = [(some 0, true), (some 0, false)] ∧
      (ackedTwice .client).conn.books.congestion.rttSamples = 2 := by
  decide +kernel

end Netudp
