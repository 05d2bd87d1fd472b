/-
From the wire to the application.

A reliable-ordered message passes two queues on its way up: the reorder window of its
channel, and the 256 delivered messages of its connection, which all channels share and
`netudp_server_receive` drains.  `deliver_ordered` advances the window before the
message is pushed, and the result of the push is ignored, so a message that finds the
queue full is gone for good.  As long as the queue has room for what each packet
releases, the application sees the sender's stream without a gap.  Of a stream that
arrives in order and is not received, the queue keeps the first 256 messages
(`applyFrames_inOrder`).
-/
import Netudp.Proofs.Link
import Netudp.Proofs.Reassembly
import Netudp.Proofs.Receive

namespace Netudp

open Lib

variable {Key Ct : Type} {C : Primitives Key Ct} {pid : Nat} {m : Nat → Bytes} {ch : Nat}
  {now : Time}

/-! ### The system -/

/-- What the frames release for delivery, in order. -/
def Connection.releases (now : Time) : Connection Key → List Frame → List DeliveredMessage
  | _, [] => []
  | _, .disconnect _ :: _ => []
  | c, frame :: rest => (c.onFrame now frame).1 ++ releases now (c.applyFrame now frame) rest

/-- A connection of the server, everything its packets have released, and everything the
application has been handed. -/
structure Inbox (Key : Type) where
  conn : Connection Key
  released : List DeliveredMessage
  handed : List Handover

/-- Nothing has been received yet. -/
def Inbox.start (c : Connection Key) : Inbox Key := ⟨c, [], []⟩

/-- What happens to an inbox. -/
inductive InboxEvent (Ct : Type) where
  /-- `netudp_server_update` has received a packet for the connection. -/
  | packet (packet : Packet Ct)
  /-- `netudp_server_receive`, with the packet handlers registered at the time. -/
  | receive (handlers : UInt8 → Bool) (maxMessages : Nat)

/-- The inbox after the event at the time. -/
def inboxStep (C : Primitives Key Ct) (pid : Nat) (s : Inbox Key) :
    Time × InboxEvent Ct → Inbox Key
  | (now, .packet packet) =>
    if !s.conn.active then s
    else
      let opened := serverOpenFrames C pid now s.conn packet
      let released := s.released ++ opened.1.releases now opened.2
      match serverHandleDataPacket C pid now s.conn packet with
      | (c, true) => { s with conn := c.reset C, released := released }
      | (c, false) => { s with conn := c, released := released }
  | (_, .receive handlers maxMessages) =>
    let (out, c) := serverReceive handlers maxMessages s.conn
    { s with conn := c, handed := s.handed ++ out }

/-- The messages of a channel, in order. -/
def messagesOn (ch : Nat) (l : List DeliveredMessage) : List DeliveredMessage :=
  l.filter fun msg => msg.channel == ch

/-- Message `j` of the channel's stream, as it is delivered. -/
def streamDelivery (m : Nat → Bytes) (ch j : Nat) : DeliveredMessage :=
  ⟨m j, ch, j % u16Size, true⟩

/-! ### What the network may bring -/

/-- The frame is of another channel, or is a copy of a stream message that is less than
`2 ^ 15` messages away from the next one due. -/
def Frame.FromStream (m : Nat → Bytes) (ch next : Nat) : Frame → Prop
  | .unreliableData channel _ => channel ≠ ch
  | .reliableData channel msgSeq data => channel = ch →
      ∃ i, msgSeq = i % u16Size ∧ data = m i ∧ |(i : Int) - next| < 2 ^ 15
  | .fragmentData channel _ _ _ _ => channel ≠ ch
  | .disconnect _ => True

/-- Every frame of a packet is, where it is reached. -/
def CarriesStream (m : Nat → Bytes) (ch : Nat) (now : Time) :
    Nat → Connection Key → List Frame → Prop
  | _, _, [] => True
  | next, c, frame :: rest => frame.FromStream m ch next ∧
      CarriesStream m ch now (next + (messagesOn ch (c.onFrame now frame).1).length)
        (c.applyFrame now frame) rest

/-- The packet brings the channel nothing but messages of its stream. -/
def ArrivesInWindow (C : Primitives Key Ct) (pid : Nat) (m : Nat → Bytes) (ch : Nat)
    (s : Inbox Key) : Time × InboxEvent Ct → Prop
  | (now, .packet packet) =>
    let opened := serverOpenFrames C pid now s.conn packet
    CarriesStream m ch now (messagesOn ch s.released).length opened.1 opened.2
  | (_, .receive _ _) => True

/-- The delivery queue has room for everything the packet releases. -/
def QueueHasRoom (C : Primitives Key Ct) (pid : Nat) (s : Inbox Key) :
    Time × InboxEvent Ct → Prop
  | (now, .packet packet) =>
    let opened := serverOpenFrames C pid now s.conn packet
    s.conn.cdata.deliveredMessages.size + (opened.1.releases now opened.2).length ≤ 256
  | (_, .receive _ _) => True

instance instDecidableQueueHasRoom (s : Inbox Key) :
    ∀ ev : Time × InboxEvent Ct, Decidable (QueueHasRoom C pid s ev)
  | (_, .packet _) => Nat.decLe _ _
  | (_, .receive _ _) => isTrue trivial

/-! ### Deliveries -/

theorem take_take_append {α : Type} (n : Nat) (as bs : List α) :
    (as.take n ++ bs).take n = (as ++ bs).take n := by
  rw [List.take_append, List.take_append, List.take_take, Nat.min_self, List.length_take,
    show n - min n as.length = n - as.length by omega]

/-- Delivered messages queue up, the first 256 of them. -/
theorem foldl_deliver (msgs : List DeliveredMessage) : ∀ c : Connection Key,
    (msgs.foldl Connection.deliver c).cdata.deliveredMessages.toList
        = (c.cdata.deliveredMessages.toList ++ msgs).take 256 ∧
      ∀ i, (msgs.foldl Connection.deliver c).rs i = c.rs i := by
  induction msgs with
  | nil =>
    intro c
    rw [List.append_nil, List.take_of_length_le (FixedRingBuffer.length_toList_le _)]
    exact ⟨rfl, fun i => rfl⟩
  | cons msg rest ih =>
    intro c
    have hlist : (c.deliver msg).cdata.deliveredMessages.toList
        = (c.cdata.deliveredMessages.toList ++ [msg]).take 256 :=
      FixedRingBuffer.toList_pushBack _ msg
    obtain ⟨hrest, hrs⟩ := ih (c.deliver msg)
    refine ⟨?_, hrs⟩
    rw [List.foldl_cons, hrest, hlist, take_take_append, List.append_assoc,
      List.singleton_append]

theorem onFrame_delivered (now : Time) (c : Connection Key) (frame : Frame) :
    (c.onFrame now frame).2.cdata.deliveredMessages = c.cdata.deliveredMessages := by
  cases frame with
  | unreliableData channel data => rfl
  | reliableData channel msgSeq data =>
    simp only [Connection.onFrame, Connection.onReliableData]
    split
    · split
      · rfl
      · rfl
    · split
      · rfl
      · rfl
    · rfl
  | fragmentData channel msgId fragIdx fragCnt data =>
    simp only [Connection.onFrame]
    split
    · rfl
    · split
      · rfl
      · rfl
  | disconnect reason => rfl

theorem applyFrame_delivers (now : Time) (c : Connection Key) (frame : Frame) :
    (c.applyFrame now frame).cdata.deliveredMessages.toList
        = (c.cdata.deliveredMessages.toList ++ (c.onFrame now frame).1).take 256 ∧
      ∀ i, (c.applyFrame now frame).rs i = (c.onFrame now frame).2.rs i := by
  have hdata := countFrame_cdata (c.onFrame now frame).2 (c.onFrame now frame).1.length frame
  obtain ⟨hqueue, hrs⟩ := foldl_deliver (c.onFrame now frame).1
    ((c.onFrame now frame).2.countFrame (c.onFrame now frame).1.length frame)
  rw [applyFrame_eq_foldl, hqueue, hdata, onFrame_delivered]
  refine ⟨rfl, fun i => (hrs i).trans ?_⟩
  show (Connection.cdata _).reliableState.get i = (Connection.cdata _).reliableState.get i
  rw [hdata]

/-- A frame that is no DISCONNECT is applied and the walk goes on. -/
theorem applyFrames_cons (now : Time) (c : Connection Key) {frame : Frame}
    (h : ∀ reason, frame ≠ .disconnect reason) (rest : List Frame) :
    c.applyFrames now (frame :: rest) = (c.applyFrame now frame).applyFrames now rest ∧
      c.releases now (frame :: rest) =
        (c.onFrame now frame).1 ++ (c.applyFrame now frame).releases now rest := by
  cases frame with
  | disconnect reason => exact absurd rfl (h reason)
  | unreliableData ch data => exact ⟨rfl, rfl⟩
  | reliableData ch msgSeq data => exact ⟨rfl, rfl⟩
  | fragmentData ch msgId fragIdx fragCnt data => exact ⟨rfl, rfl⟩

theorem messagesOn_append (ch : Nat) (as bs : List DeliveredMessage) :
    messagesOn ch (as ++ bs) = messagesOn ch as ++ messagesOn ch bs :=
  List.filter_append as bs

theorem messagesOn_of_ne {l : List DeliveredMessage} (h : ∀ msg ∈ l, msg.channel ≠ ch) :
    messagesOn ch l = [] := by
  unfold messagesOn
  rw [List.filter_eq_nil_iff]
  intro msg hmsg
  rw [beq_iff_eq]
  exact h msg hmsg

theorem messagesOn_of_eq {l : List DeliveredMessage} (h : ∀ msg ∈ l, msg.channel = ch) :
    messagesOn ch l = l := by
  unfold messagesOn
  rw [List.filter_eq_self]
  intro msg hmsg
  rw [beq_iff_eq]
  exact h msg hmsg

theorem onReliableData_msgs (c : Connection Key) (channel msgSeq : Nat) (data : Bytes) :
    ∀ msg ∈ (c.onReliableData channel msgSeq data).1, msg.channel = channel ∧ msg.valid = true := by
  intro msg hmsg
  simp only [Connection.onReliableData] at hmsg
  split at hmsg
  · split at hmsg
    · exact absurd hmsg List.not_mem_nil
    · obtain ⟨x, -, rfl⟩ := List.mem_map.mp hmsg
      exact ⟨rfl, rfl⟩
  · split at hmsg
    · exact absurd hmsg List.not_mem_nil
    · rw [List.mem_singleton.mp hmsg]
      exact ⟨rfl, rfl⟩
  · exact absurd hmsg List.not_mem_nil

theorem onReliableData_rs_of_ne (c : Connection Key) {channel : Nat} (msgSeq : Nat) (data : Bytes)
    (h : ch % 4 ≠ channel % 4) : (c.onReliableData channel msgSeq data).2.rs ch = c.rs ch := by
  simp only [Connection.onReliableData]
  split
  · split
    · rw [Connection.rs_setRs, if_neg h]
    · rw [Connection.rs_setRs, if_neg h]
  · split
    · rfl
    · rw [Connection.rs_setRs, if_neg h]
  · rfl

/-! ### One frame -/

/-- A copy of a stream message releases the messages that have become contiguous. -/
theorem onReliableData_stream {c : Connection Key} {k i : Nat} (hm : ∀ i, (m i).length ≤ mtu)
    (htype : (c.ch ch).config.type = .reliableOrdered) (h : Reassembles m (c.rs ch) k)
    (hnear : |(i : Int) - k| < 2 ^ 15) :
    ∃ n, (c.onReliableData ch (i % u16Size) (m i)).1
        = (List.range n).map (fun j => streamDelivery m ch (k + j)) ∧
      Reassembles m ((c.onReliableData ch (i % u16Size) (m i)).2.rs ch) (k + n) := by
  have hbuf := bufferReceivedOrdered_eq h hm hnear
  by_cases hacc : k ≤ i ∧ i < k + 64 ∧ ((c.rs ch).recvBuffer.get i).valid = false
  · rw [if_pos hacc] at hbuf
    obtain ⟨n, hmsgs, hwin, -⟩ :=
      deliverLoop_reassembles reliableBufferSize (h.insert hacc.1 hacc.2.1)
    simp only [Connection.onReliableData, htype, hbuf, ReliableChannelState.deliverOrdered, hmsgs,
      List.map_map]
    refine ⟨n, List.map_congr_left fun j _ => ?_, ?_⟩
    · show (⟨(m (k + j)).take mtu, ch, (k + j) % u16Size, true⟩ : DeliveredMessage) = _
      rw [List.take_of_length_le (hm (k + j))]
      rfl
    · rw [Connection.rs_setRs, if_pos rfl]
      exact hwin
  · rw [if_neg hacc] at hbuf
    simp only [Connection.onReliableData, htype, hbuf]
    refine ⟨0, rfl, ?_⟩
    rw [Connection.rs_setRs, if_pos rfl]
    exact h

/-- **What one frame releases of the stream** are its next messages. -/
theorem onFrame_stream (now : Time) {c : Connection Key} {k : Nat} (hm : ∀ i, (m i).length ≤ mtu)
    (hch : ch < 4) (htype : (c.ch ch).config.type = .reliableOrdered)
    (h : Reassembles m (c.rs ch) k) {frame : Frame} (hframe : frame.FromStream m ch k)
    (hlt : ∀ channel msgSeq data, frame = .reliableData channel msgSeq data → channel < 4) :
    (∃ n, messagesOn ch (c.onFrame now frame).1
        = (List.range n).map (fun j => streamDelivery m ch (k + j)) ∧
      Reassembles m ((c.onFrame now frame).2.rs ch) (k + n)) ∧
    ∀ msg ∈ (c.onFrame now frame).1, msg.valid = true := by
  cases frame with
  | unreliableData channel data =>
    have hne : channel ≠ ch := hframe
    refine ⟨⟨0, ?_, h⟩, ?_⟩
    · apply messagesOn_of_ne
      intro msg hmsg
      rw [List.mem_singleton.mp hmsg]
      exact hne
    · intro msg hmsg
      rw [List.mem_singleton.mp hmsg]
  | reliableData channel msgSeq data =>
    have hmsgs := onReliableData_msgs c channel msgSeq data
    refine ⟨?_, fun msg hmsg => (hmsgs msg hmsg).2⟩
    by_cases heq : channel = ch
    · subst heq
      obtain ⟨i, rfl, rfl, hnear⟩ := hframe rfl
      obtain ⟨n, hstream, hwin⟩ := onReliableData_stream hm htype h hnear
      refine ⟨n, ?_, hwin⟩
      rw [← hstream]
      exact messagesOn_of_eq fun msg hmsg => (hmsgs msg hmsg).1
    · have hmod : ch % 4 ≠ channel % 4 := by
        have := hlt channel msgSeq data rfl
        omega
      refine ⟨0, messagesOn_of_ne fun msg hmsg => ?_, ?_⟩
      · rw [(hmsgs msg hmsg).1]
        exact heq
      · show Reassembles m ((c.onReliableData channel msgSeq data).2.rs ch) (k + 0)
        rw [onReliableData_rs_of_ne c msgSeq data hmod]
        exact h
  | fragmentData channel msgId fragIdx fragCnt data =>
    have hne : channel ≠ ch := hframe
    simp only [Connection.onFrame]
    split
    · exact ⟨⟨0, rfl, h⟩, List.forall_mem_nil _⟩
    · split
      · exact ⟨⟨0, rfl, h⟩, List.forall_mem_nil _⟩
      · refine ⟨⟨0, ?_, h⟩, ?_⟩
        · apply messagesOn_of_ne
          intro msg hmsg
          rw [List.mem_singleton.mp hmsg]
          exact hne
        · intro msg hmsg
          rw [List.mem_singleton.mp hmsg]
  | disconnect reason => exact ⟨⟨0, rfl, h⟩, List.forall_mem_nil _⟩

/-! ### One packet -/

/-- What has been released of the channel is the stream up to where its window starts,
and whatever was released was handed over or is still queued. -/
structure Live (m : Nat → Bytes) (ch : Nat) (c : Connection Key)
    (released handed : List DeliveredMessage) : Prop where
  type : (c.ch ch).config.type = .reliableOrdered
  window : Reassembles m (c.rs ch) (messagesOn ch released).length
  stream : messagesOn ch released
    = (List.range (messagesOn ch released).length).map (streamDelivery m ch)
  fifo : released = handed ++ c.cdata.deliveredMessages.toList
  valid : ∀ msg ∈ released, msg.valid = true

section Walk

variable {c : Connection Key} {released handed : List DeliveredMessage}

/-- Only the channels and what they have received matter. -/
theorem Live.congr (h : Live m ch c released handed) {c' : Connection Key}
    (hdata : c'.cdata = c.cdata) : Live m ch c' released handed := by
  refine ⟨?_, ?_, h.stream, ?_, h.valid⟩
  · unfold Connection.ch
    rw [hdata]
    exact h.type
  · unfold Connection.rs
    rw [hdata]
    exact h.window
  · rw [hdata]
    exact h.fifo

theorem applyFrame_live (now : Time) (hm : ∀ i, (m i).length ≤ mtu) (hch : ch < 4)
    (h : Live m ch c released handed) {frame : Frame}
    (hframe : frame.FromStream m ch (messagesOn ch released).length)
    (hlt : ∀ channel msgSeq data, frame = .reliableData channel msgSeq data → channel < 4)
    (hroom : c.cdata.deliveredMessages.size + (c.onFrame now frame).1.length ≤ 256) :
    Live m ch (c.applyFrame now frame) (released ++ (c.onFrame now frame).1) handed := by
  obtain ⟨⟨n, hmsgs, hwin⟩, hvalid⟩ := onFrame_stream now hm hch h.type h.window hframe hlt
  obtain ⟨hqueue, hrs⟩ := applyFrame_delivers now c frame
  have hfits : (c.cdata.deliveredMessages.toList ++ (c.onFrame now frame).1).length ≤ 256 := by
    rw [List.length_append, FixedRingBuffer.length_toList]
    exact hroom
  rw [List.take_of_length_le hfits] at hqueue
  have hlen : (messagesOn ch (released ++ (c.onFrame now frame).1)).length
      = (messagesOn ch released).length + n := by
    rw [messagesOn_append, List.length_append, hmsgs, List.length_map, List.length_range]
  refine ⟨?_, ?_, ?_, ?_, ?_⟩
  · rw [(applyFrame_sameSchedule now c frame).ch ch]
    exact h.type
  · rw [hlen, hrs ch]
    exact hwin
  · rw [hlen, messagesOn_append, List.range_add, List.map_append, ← h.stream, hmsgs, List.map_map]
    rfl
  · rw [hqueue, ← List.append_assoc, ← h.fifo]
  · intro msg hmsg
    rcases List.mem_append.mp hmsg with hold | hnew
    · exact h.valid msg hold
    · exact hvalid msg hnew

/-- The walk over a packet's frames, as long as no DISCONNECT ends it. -/
theorem applyFrames_live (hm : ∀ i, (m i).length ≤ mtu) (hch : ch < 4) (frames : List Frame) :
    ∀ {c : Connection Key} {released : List DeliveredMessage}, Live m ch c released handed →
      CarriesStream m ch now (messagesOn ch released).length c frames →
      (∀ channel msgSeq data, .reliableData channel msgSeq data ∈ frames → channel < 4) →
      c.cdata.deliveredMessages.size + (c.releases now frames).length ≤ 256 →
      (c.applyFrames now frames).2 = false →
      Live m ch (c.applyFrames now frames).1 (released ++ c.releases now frames) handed := by
  induction frames with
  | nil =>
    intro c released h _ _ _ _
    show Live m ch c (released ++ []) handed
    rw [List.append_nil]
    exact h
  | cons frame rest ih =>
    intro c released h hcarries hlt hroom hend
    by_cases hdis : ∃ reason, frame = .disconnect reason
    · obtain ⟨reason, rfl⟩ := hdis
      exact absurd hend (by simp [Connection.applyFrames])
    · have hne : ∀ reason, frame ≠ .disconnect reason := fun reason heq => hdis ⟨reason, heq⟩
      obtain ⟨hwalk, hrel⟩ := applyFrames_cons now c hne rest
      rw [hrel, List.length_append] at hroom
      rw [hwalk] at hend ⊢
      rw [hrel, ← List.append_assoc]
      have hone := applyFrame_live now hm hch h hcarries.1
        (fun channel msgSeq data heq => hlt channel msgSeq data (heq ▸ List.mem_cons_self))
        (by omega)
      have hsize : (c.applyFrame now frame).cdata.deliveredMessages.size
          = c.cdata.deliveredMessages.size + (c.onFrame now frame).1.length := by
        have hold := h.fifo
        have hnew := hone.fifo
        rw [hold, List.append_assoc] at hnew
        rw [← FixedRingBuffer.length_toList, ← List.append_cancel_left hnew, List.length_append,
          FixedRingBuffer.length_toList]
      refine ih hone ?_ (fun channel msgSeq data hmem => hlt channel msgSeq data
        (List.mem_cons_of_mem frame hmem)) (by omega) hend
      rw [messagesOn_append, List.length_append]
      exact hcarries.2

theorem Live.handed_stream (h : Live m ch c released handed) :
    ∃ k, messagesOn ch handed = (List.range k).map (streamDelivery m ch) := by
  have hsplit := congrArg (messagesOn ch) h.fifo
  rw [messagesOn_append, h.stream] at hsplit
  refine ⟨min (messagesOn ch handed).length (messagesOn ch released).length, ?_⟩
  rw [← List.take_range, List.map_take, hsplit, List.take_left']
  rfl

end Walk

theorem serverOpenFrames_channel {packet : Packet Ct} {c : Connection Key} {channel msgSeq : Nat}
    {data : Bytes}
    (h : .reliableData channel msgSeq data ∈ (serverOpenFrames C pid now c packet).2) :
    channel < 4 := by
  simp only [serverOpenFrames] at h
  split at h
  · exact absurd h List.not_mem_nil
  split at h
  · exact absurd h List.not_mem_nil
  split at h
  · exact absurd h List.not_mem_nil
  · exact Nat.lt_of_lt_of_le (readFrames_channel _ _ h) c.numChannels_le

/-! ### Whole runs -/

/-- The messages `netudp_server_receive` returned to its caller. -/
def returnedMessages (handed : List Handover) : List DeliveredMessage :=
  handed.filterMap fun
    | .handled _ => none
    | .returned msg => some msg

/-- No handler took a message of the channel, so the caller got all of them. -/
theorem messagesOn_returned {handed : List Handover}
    (h : ∀ msg, .handled msg ∈ handed → msg.channel ≠ ch) :
    messagesOn ch (returnedMessages handed) = messagesOn ch (handed.map Handover.msg) := by
  induction handed with
  | nil => rfl
  | cons first rest ih =>
    have hrest := ih fun msg hmsg => h msg (List.mem_cons_of_mem first hmsg)
    cases first with
    | handled msg =>
      have hne : ¬ (msg.channel == ch) = true := by
        rw [beq_iff_eq]
        exact h msg List.mem_cons_self
      show messagesOn ch (returnedMessages rest)
        = List.filter _ (msg :: rest.map Handover.msg)
      rw [List.filter_cons, if_neg hne]
      exact hrest
    | returned msg =>
      show List.filter _ (msg :: returnedMessages rest)
        = List.filter _ (msg :: rest.map Handover.msg)
      rw [List.filter_cons, List.filter_cons]
      exact ite_congr rfl (fun _ => congrArg (msg :: ·) hrest) fun _ => hrest

/-- The channel's stream has reached the application without a gap, and goes on doing so
while the connection lives. -/
structure Gapless (m : Nat → Bytes) (ch : Nat) (s : Inbox Key) : Prop where
  stream : ∃ k, messagesOn ch (s.handed.map Handover.msg)
    = (List.range k).map (streamDelivery m ch)
  live : s.conn.active = true → Live m ch s.conn s.released (s.handed.map Handover.msg)

theorem inboxStep_gapless (hm : ∀ i, (m i).length ≤ mtu) (hch : ch < 4) {s : Inbox Key}
    (hs : Gapless m ch s) (ev : Time × InboxEvent Ct) (harrive : ArrivesInWindow C pid m ch s ev)
    (hroom : QueueHasRoom C pid s ev) : Gapless m ch (inboxStep C pid s ev) := by
  obtain ⟨now, ev⟩ := ev
  cases ev with
  | packet packet =>
    simp only [inboxStep]
    split
    · exact hs
    rename_i hactive
    obtain ⟨hdata, -, -⟩ := serverOpenFrames_eq C pid now s.conn packet
    have hlive := (hs.live (by simpa using hactive)).congr hdata
    split
    · -- The client disconnected: nothing more will be handed over.
      exact ⟨hs.stream, fun hc => absurd hc Bool.false_ne_true⟩
    · rename_i c hres
      refine ⟨hs.stream, fun _ => ?_⟩
      have hroom' : (serverOpenFrames C pid now s.conn packet).1.cdata.deliveredMessages.size
          + ((serverOpenFrames C pid now s.conn packet).1.releases now
            (serverOpenFrames C pid now s.conn packet).2).length ≤ 256 := by
        rw [hdata]
        exact hroom
      have hwalk := applyFrames_live hm hch (serverOpenFrames C pid now s.conn packet).2 hlive
        harrive (fun channel msgSeq data hmem => serverOpenFrames_channel hmem) hroom'
        (congrArg Prod.snd hres)
      rw [show ((serverOpenFrames C pid now s.conn packet).1.applyFrames now
        (serverOpenFrames C pid now s.conn packet).2).1 = c from congrArg Prod.fst hres] at hwalk
      exact hwalk
  | receive handlers maxMessages =>
    simp only [inboxStep, serverReceive]
    split
    · rw [List.append_nil]
      exact hs
    rename_i hactive
    have hlive := hs.live (by simpa using hactive)
    have hvalid : ∀ msg ∈ s.conn.cdata.deliveredMessages.toList, msg.valid = true := by
      intro msg hmsg
      apply hlive.valid msg
      rw [hlive.fifo]
      exact List.mem_append_right _ hmsg
    obtain ⟨hlist, -⟩ := receiveLoop_spec handlers s.conn.cdata.deliveredMessages.size maxMessages
      s.conn.cdata.deliveredMessages (Nat.le_refl _) hvalid
    have hnext : Live m ch
        { s.conn with cdata := { s.conn.cdata with
          deliveredMessages := (receiveLoop handlers s.conn.cdata.deliveredMessages.size
            maxMessages s.conn.cdata.deliveredMessages).2 } } s.released
        ((s.handed ++ (receiveLoop handlers s.conn.cdata.deliveredMessages.size maxMessages
          s.conn.cdata.deliveredMessages).1).map Handover.msg) := by
      refine ⟨hlive.type, hlive.window, hlive.stream, ?_, hlive.valid⟩
      rw [List.map_append, List.append_assoc, ← hlist]
      exact hlive.fifo
    exact ⟨hnext.handed_stream, fun _ => hnext⟩

/--
**Reliable-ordered messages reach the application without gaps**, whatever packets
arrive, in whatever order and from whatever other channels too, and whenever and for
however many messages the application asks, as long as the delivery queue has room for
what each packet releases.  What a packet handler takes counts as having reached the
application; without one for the channel's messages, all of them are returned.
-/
theorem ordered_reaches_application (C : Primitives Key Ct) (pid : Nat) (m : Nat → Bytes)
    (hm : ∀ i, (m i).length ≤ 1200) (ch : Nat) (c : Connection Key) (configs : List ChannelConfig)
    (time : Time) (hch : ch < (c.initSubsystems configs time).numChannels)
    (htype : ((c.initSubsystems configs time).ch ch).config.type = .reliableOrdered)
    (es : List (Time × InboxEvent Ct))
    (hes : Along (inboxStep C pid) (ArrivesInWindow C pid m ch)
      (.start (c.initSubsystems configs time)) es)
    (hroom : Along (inboxStep C pid) (QueueHasRoom C pid)
      (.start (c.initSubsystems configs time)) es) :
    let s := run (inboxStep C pid) (.start (c.initSubsystems configs time)) es
    (∃ k, messagesOn ch (s.handed.map Handover.msg) = (List.range k).map (streamDelivery m ch)) ∧
      ((∀ msg, .handled msg ∈ s.handed → msg.channel ≠ ch) →
        ∃ k, messagesOn ch (returnedMessages s.handed)
          = (List.range k).map (streamDelivery m ch)) := by
  intro s
  have hstart : Gapless m ch (.start (c.initSubsystems configs time)) := by
    refine ⟨⟨0, rfl⟩, fun _ => ⟨htype, ?_, rfl, rfl, List.forall_mem_nil _⟩⟩
    exact reset_reassembles
  have hgap : Gapless m ch s := run_invariant (Gapless m ch)
    (fun _ ev hs hev => inboxStep_gapless hm (Nat.lt_of_lt_of_le hch (Connection.numChannels_le _))
      hs ev hev.1 hev.2)
    hstart (along_and.mpr ⟨hes, hroom⟩)
  refine ⟨hgap.stream, fun hnone => ?_⟩
  rw [messagesOn_returned hnone]
  exact hgap.stream

/-! ### A stream that arrives in order -/

/-- The channel has released its stream up to message `k`, and nothing waits in its
window. -/
structure CaughtUp (m : Nat → Bytes) (ch : Nat) (c : Connection Key) (k : Nat) : Prop where
  type : (c.ch ch).config.type = .reliableOrdered
  window : Reassembles m (c.rs ch) k
  empty : ∀ s, ((c.rs ch).recvBuffer.get s).valid = false

/-- The frame with message `j` of the stream. -/
def streamFrame (m : Nat → Bytes) (ch j : Nat) : Frame := .reliableData ch (j % u16Size) (m j)

section InOrder

variable {c : Connection Key} {k n : Nat}

theorem CaughtUp.congr (h : CaughtUp m ch c k) {c' : Connection Key} (hdata : c'.cdata = c.cdata) :
    CaughtUp m ch c' k := by
  refine ⟨?_, ?_, ?_⟩
  · unfold Connection.ch
    rw [hdata]
    exact h.type
  · unfold Connection.rs
    rw [hdata]
    exact h.window
  · unfold Connection.rs
    rw [hdata]
    exact h.empty

/-- The message due next is released at once, alone. -/
theorem onReliableData_next (hm : ∀ i, (m i).length ≤ mtu) (h : CaughtUp m ch c k) :
    (c.onReliableData ch (k % u16Size) (m k)).1 = [streamDelivery m ch k] ∧
      Reassembles m ((c.onReliableData ch (k % u16Size) (m k)).2.rs ch) (k + 1) ∧
      ∀ s, (((c.onReliableData ch (k % u16Size) (m k)).2.rs ch).recvBuffer.get s).valid = false := by
  have hbuf := bufferReceivedOrdered_eq h.window hm (i := k) (by simp)
  rw [if_pos ⟨Nat.le_refl k, by omega, h.empty k⟩] at hbuf
  obtain ⟨hmsgs, hwindow, hempty⟩ := deliverOrdered_next h.window h.empty
  simp only [Connection.onReliableData, h.type, hbuf, hmsgs, Connection.rs_setRs, if_true]
  refine ⟨?_, hwindow, hempty⟩
  simp only [streamMessage, List.map_cons, List.map_nil, List.take_of_length_le (hm k)]
  rfl

theorem applyFrame_next (now : Time) (hm : ∀ i, (m i).length ≤ mtu) (h : CaughtUp m ch c k) :
    CaughtUp m ch (c.applyFrame now (streamFrame m ch k)) (k + 1) ∧
      (c.applyFrame now (streamFrame m ch k)).cdata.deliveredMessages.toList
        = (c.cdata.deliveredMessages.toList ++ [streamDelivery m ch k]).take 256 := by
  obtain ⟨hmsgs, hwindow, hempty⟩ := onReliableData_next hm h
  obtain ⟨hqueue, hrs⟩ := applyFrame_delivers now c (streamFrame m ch k)
  refine ⟨⟨?_, ?_, ?_⟩, hqueue.trans (by rw [← hmsgs]; rfl)⟩
  · rw [(applyFrame_sameSchedule now c _).ch ch]
    exact h.type
  · rw [hrs ch]
    exact hwindow
  · rw [hrs ch]
    exact hempty

/-- **The messages that arrive in order are released one by one**, and the queue keeps the
first 256 of what it is given. -/
theorem applyFrames_inOrder (now : Time) (hm : ∀ i, (m i).length ≤ mtu) (n : Nat) :
    ∀ {c : Connection Key} {k : Nat}, CaughtUp m ch c k →
      let walked := c.applyFrames now ((List.range' k n).map (streamFrame m ch))
      walked.2 = false ∧ CaughtUp m ch walked.1 (k + n) ∧
        walked.1.cdata.deliveredMessages.toList = (c.cdata.deliveredMessages.toList ++
          (List.range' k n).map (streamDelivery m ch)).take 256 := by
  induction n with
  | zero =>
    intro c k h
    refine ⟨rfl, h, ?_⟩
    rw [List.range'_zero, List.map_nil, List.map_nil, List.append_nil,
      List.take_of_length_le (FixedRingBuffer.length_toList_le _)]
    rfl
  | succ n ih =>
    intro c k h
    obtain ⟨hnext, hone⟩ := applyFrame_next now hm h
    obtain ⟨hend, hlast, hqueue⟩ := ih hnext
    rw [hone, take_take_append, List.append_assoc, List.singleton_append] at hqueue
    rw [show k + 1 + n = k + (n + 1) by omega] at hlast
    exact ⟨hend, hlast, hqueue⟩

/-- The connection has opened the packets below `n`, all under one key, and has the messages
`q` in its queue. -/
structure KeepsUp (m : Nat → Bytes) (ch : Nat) (key : Key) (c : Connection Key) (n k : Nat)
    (q : List DeliveredMessage) : Prop where
  active : c.active = true
  key : c.keyEpoch.rxKey = key
  nonces : ReplayProtection.UpTo c.keyEpoch.replay n
  grace : c.keyEpoch.gracePacketsRemaining ≤ 0
  channel : ch < c.numChannels
  caughtUp : CaughtUp m ch c k
  queue : c.cdata.deliveredMessages.toList = q

variable {key : Key} {s : Inbox Key} {q : List DeliveredMessage}

theorem readable_streamFrame (hm : ∀ i, (m i).length ≤ mtu) {channels : Nat} (hch : ch < channels)
    (j : Nat) : (streamFrame m ch j).Readable channels := by
  have hlen : (m j).length ≤ 1200 := hm j
  refine ⟨hch, Nat.mod_lt j (by decide), ?_⟩
  show (m j).length < 65536
  omega

theorem inboxStep_packet (now : Time) (hC : C.Ideal) (hm : ∀ i, (m i).length ≤ mtu)
    (h : KeepsUp m ch key s.conn n k q) (hn : ReplayProtection.Unwrapped n) {packet : Packet Ct}
    (hkind : packet.prefixByte ≠ packetPrefixDataRekey) {ack : Bytes} (hack : ack.length = 8)
    (count : Nat) (hp : Genuine C pid key n packet
      (ack ++ ((List.range' k count).map (streamFrame m ch)).flatMap Frame.bytes)) :
    let next := inboxStep C pid s (now, .packet packet)
    next.handed = s.handed ∧ KeepsUp m ch key next.conn (n + 1) (k + count)
      ((q ++ (List.range' k count).map (streamDelivery m ch)).take 256) := by
  have hsmall : n < u64Size := Nat.lt_of_le_of_lt (Nat.le_add_right n ReplayProtection.windowSize) hn
  have hopen := openPacket_genuine hC .server now h.nonces (fun hc => nomatch hc) h.grace hkind
    hsmall (by rw [h.key]; exact hp)
  rw [if_pos ⟨rfl, hn⟩] at hopen
  have htag : 1 ≤ C.ctLen packet.ct := by
    rw [hC.tag hp]
    omega
  obtain ⟨hframes, hepoch⟩ := serverOpenFrames_opened htag hopen (by
    rw [List.length_append, hack]
    omega)
  have hreadable : ∀ f ∈ (List.range' k count).map (streamFrame m ch),
      f.Readable s.conn.numChannels := by
    intro f hf
    obtain ⟨j, -, rfl⟩ := List.mem_map.mp hf
    exact readable_streamFrame hm h.channel j
  have hchannels := s.conn.numChannels_le
  rw [payloadFrames_bytes (by omega) hack hreadable] at hframes
  obtain ⟨hdata, hactive, hsame⟩ := serverOpenFrames_eq C pid now s.conn packet
  cases hopened : serverOpenFrames C pid now s.conn packet with
  | mk opened frames =>
    simp only [hopened] at hframes hepoch hdata hactive hsame
    obtain ⟨hend, hlast, hqueue⟩ := applyFrames_inOrder now hm count (h.caughtUp.congr hdata)
    rw [← hframes] at hend hlast hqueue
    have hfields := applyFrames_cdata now opened frames
    cases hwalk : opened.applyFrames now frames with
    | mk walked ended =>
      simp only [hwalk] at hend hlast hqueue hfields
      subst hend
      simp only [inboxStep, h.active, Bool.not_true, Bool.false_eq_true, if_false,
        serverHandleDataPacket_eq, hopened, hwalk, true_and]
      rw [hdata, h.queue] at hqueue
      have hwindow := h.nonces.advance hn
      rw [hfields] at hlast hqueue ⊢
      exact {
        active := hactive.trans h.active
        key := (congrArg KeyEpoch.rxKey hepoch).trans h.key
        nonces := by
          rw [show opened.keyEpoch.replay = _ from congrArg KeyEpoch.replay hepoch]
          exact hwindow
        grace := by
          rw [show opened.keyEpoch.gracePacketsRemaining = _ from
            congrArg KeyEpoch.gracePacketsRemaining hepoch]
          exact h.grace
        channel := hsame.numChannels ▸ h.channel
        caughtUp := hlast
        queue := hqueue }

theorem inboxStep_receive (now : Time) (h : KeepsUp m ch key s.conn n k q)
    (hvalid : ∀ msg ∈ q, msg.valid = true) {handlers : UInt8 → Bool}
    (hnone : ∀ ptype, handlers ptype = false) (maxMessages : Nat) (hall : q.length ≤ maxMessages) :
    let next := inboxStep C pid s (now, .receive handlers maxMessages)
    next.handed = s.handed ++ q.map .returned ∧ KeepsUp m ch key next.conn n k [] := by
  have hsize : s.conn.cdata.deliveredMessages.size ≤ maxMessages := by
    rw [← FixedRingBuffer.length_toList, h.queue]
    exact hall
  rw [← h.queue] at hvalid
  obtain ⟨hout, hrest⟩ := receiveLoop_all hnone hvalid hsize
  rw [h.queue] at hout
  have hactive : (!s.conn.active) = false := by rw [h.active]; rfl
  simp only [inboxStep, serverReceive, hactive, Bool.false_eq_true, if_false, hout, true_and]
  exact { h with caughtUp := ⟨h.caughtUp.type, h.caughtUp.window, h.caughtUp.empty⟩, queue := hrest }

end InOrder

/-- A stream of one-byte messages. -/
def toyStream (j : Nat) : Bytes := [UInt8.ofNat j]

/-- The client's packet with these messages of the stream. -/
def streamPacket (nonce : Nat) (js : List Nat) : Packet (Sealed Nat) :=
  ⟨prefixData, 0, buildNonce nonce, buildAad 7 prefixData, writeAckFields {} ++
    js.flatMap fun j => (Frame.reliableData 0 (j % u16Size) (toyStream j)).bytes⟩

/-- Message 1 before message 0, with a receive after each. -/
def swappedArrivals : List (Time × InboxEvent (Sealed Nat)) :=
  [(1, .packet (streamPacket 0 [1])), (1, .receive (fun _ => false) 10),
    (1, .packet (streamPacket 1 [0])), (1, .receive (fun _ => false) 10)]

/-- Both messages reach the application, in the order of the stream. -/
theorem ordered_reaches_application_swapped :
    let s := run (inboxStep toyCipher 7)
      (.start (toyConnection.initSubsystems [{ type := .reliableOrdered }] 1)) swappedArrivals
    (returnedMessages s.handed).length = 2 ∧
      ∃ k, messagesOn 0 (s.handed.map Handover.msg)
        = (List.range k).map (streamDelivery toyStream 0) := by
  refine ⟨by decide +kernel, (ordered_reaches_application toyCipher 7 toyStream
    (fun i => by simp [toyStream]) 0 toyConnection [{ type := .reliableOrdered }] 1
    (by decide +kernel) (by decide +kernel) swappedArrivals ?_ (by decide +kernel)).1⟩
  refine ⟨?_, trivial, ?_, trivial, trivial⟩
  · exact ⟨fun _ => ⟨1, rfl, rfl, by decide +kernel⟩, trivial⟩
  · exact ⟨fun _ => ⟨0, rfl, rfl, by decide +kernel⟩, trivial⟩

theorem returnedMessages_map (msgs : List DeliveredMessage) :
    returnedMessages (msgs.map .returned) = msgs := by
  rw [returnedMessages, List.filterMap_map]
  exact List.filterMap_some

theorem valid_streamDelivery {js : List Nat} :
    ∀ msg ∈ js.map (streamDelivery m ch), msg.valid = true := by
  intro msg hmsg
  obtain ⟨j, -, rfl⟩ := List.mem_map.mp hmsg
  rfl

theorem toyConnection_keepsUp :
    KeepsUp toyStream 0 0 (toyConnection.initSubsystems [{ type := .reliableOrdered }] 1) 0 0
      [] where
  active := rfl
  key := rfl
  nonces := ReplayProtection.upTo_reset
  grace := Int.le_refl 0
  channel := Nat.one_pos
  caughtUp := ⟨rfl, reset_reassembles, fun _ => rfl⟩
  queue := rfl

theorem genuine_streamPacket (nonce : Nat) {js : List Nat} {k count : Nat}
    (h : js = List.range' k count) :
    Genuine toyCipher 7 0 nonce (streamPacket nonce js) (writeAckFields {} ++
      ((List.range' k count).map (streamFrame toyStream 0)).flatMap Frame.bytes) := by
  rw [List.flatMap_map, h]
  rfl

/-- The stream arrives in order, but nothing is received until 257 messages have come.
The queue holds 256; message 256 is released by the window and dropped, and message 257
is returned right after message 255. -/
theorem ordered_drops_when_full :
    let s := run (inboxStep toyCipher 7)
      (.start (toyConnection.initSubsystems [{ type := .reliableOrdered }] 1))
      [(1, .packet (streamPacket 0 (List.range 170))),
        (1, .packet (streamPacket 1 (List.range' 170 87))),
        (1, .receive (fun _ => false) 256), (1, .packet (streamPacket 2 [257])),
        (1, .receive (fun _ => false) 256)]
    (returnedMessages s.handed).map DeliveredMessage.sequence = List.range 256 ++ [257] := by
  have hm : ∀ i, (toyStream i).length ≤ mtu := fun i => by simp [toyStream, mtu]
  have hkind : prefixData ≠ packetPrefixDataRekey := by decide
  have hack : (writeAckFields {}).length = 8 := length_writeAckFields {}
  obtain ⟨hfirst, h⟩ := inboxStep_packet 1 toyCipher_ideal hm
    (s := .start (toyConnection.initSubsystems [{ type := .reliableOrdered }] 1))
    toyConnection_keepsUp
    (by decide) hkind hack 170 (genuine_streamPacket 0 List.range_eq_range')
  obtain ⟨hsecond, h⟩ := inboxStep_packet 1 toyCipher_ideal hm h (by decide) hkind hack 87
    (genuine_streamPacket 1 (k := 170) rfl)
  -- Of the 257 messages, 256 are in the queue.
  have hkept : ((List.range' 0 170).map (streamDelivery toyStream 0) ++
      (List.range' (0 + 170) 87).map (streamDelivery toyStream 0)).take 256 =
        (List.range 256).map (streamDelivery toyStream 0) := by
    rw [← List.map_append, List.range'_append_1, ← List.map_take, ← List.range_eq_range',
      List.take_range, Nat.min_eq_left (by decide)]
  rw [take_take_append, List.nil_append, hkept] at h
  obtain ⟨hthird, h⟩ := inboxStep_receive (C := toyCipher) 1 h valid_streamDelivery
    (fun _ => rfl : ∀ ptype : UInt8, (fun _ => false) ptype = false) 256 (by simp)
  have hlast : [257] = List.range' 257 1 := rfl
  obtain ⟨hfourth, h⟩ := inboxStep_packet 1 toyCipher_ideal hm h (by decide) hkind hack 1
    (genuine_streamPacket 2 hlast)
  rw [List.nil_append, ← List.map_take, List.take_of_length_le (by simp)] at h
  obtain ⟨hfifth, -⟩ := inboxStep_receive (C := toyCipher) 1 h valid_streamDelivery
    (fun _ => rfl : ∀ ptype : UInt8, (fun _ => false) ptype = false) 256 (by simp)
  show (returnedMessages (Inbox.handed (run _ _ _))).map DeliveredMessage.sequence = _
  rw [run_cons, run_cons, run_cons, run_cons, run_cons, run_nil, hfifth, hfourth, hthird, hsecond,
    hfirst, Inbox.start, List.nil_append, ← List.map_append, returnedMessages_map,
    ← List.map_append, List.map_map]
  decide +kernel

end Netudp
