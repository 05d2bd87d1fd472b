/-
What the frame loops make of a payload.

Three results.  A payload put together by the writers is read back frame by frame, to its
last byte.  Whatever the bytes are, the client makes of them what the server makes, as
long as no fragment is among them.  And whatever the bytes are, neither loop reads past
their end; but an unreliable frame may be longer than the message it is copied into, and a
fragment's channel is not checked.
-/
import Netudp.Proofs.FrameLoop
import Netudp.Proofs.PendingMask

namespace Netudp

open Lib FrameAction

variable {Key : Type}

/-! ### Payloads written are read back -/

/-- The frame carries a message: others may follow it. -/
def Frame.isMessage : Frame → Bool
  | .unreliableData .. => true
  | .reliableData .. => true
  | .fragmentData .. => false
  | .disconnect _ => false

/-- What a sender may write for a receiver with `n` channels; the bounds that are not on
the channel of a message are those of the fields' types. -/
def Frame.Encodable (n : Nat) : Frame → Prop
  | .unreliableData ch _ => ch < n
  | .reliableData ch msgSeq _ => ch < n ∧ msgSeq < u16Size
  | .fragmentData ch msgId fragIdx fragCnt data =>
    ch < 256 ∧ msgId < u16Size ∧ fragIdx < 256 ∧ fragCnt < 256 ∧ data ≠ []
  | .disconnect reason => reason < 256

/-- The writer for the frame. -/
def Frame.write (avail : Nat) : Frame → Option Bytes
  | .unreliableData ch data => writeUnreliableFrame avail ch data
  | .reliableData ch msgSeq data => writeReliableFrame avail ch msgSeq data
  | .fragmentData ch msgId fragIdx fragCnt data =>
    writeFragmentFrame avail ch msgId fragIdx fragCnt data
  | .disconnect reason => writeDisconnectFrame avail reason

/-- The frames written one after another into what is left of a payload of 1200 bytes. -/
def writeFrames : Bytes → List Frame → Option Bytes
  | payload, [] => some payload
  | payload, frame :: rest =>
    match frame.write (mtu - payload.length) with
    | none => none
    | some bytes => writeFrames (payload ++ bytes) rest

theorem write_eq_some {avail : Nat} {frame : Frame} {bytes : Bytes}
    (h : frame.write avail = some bytes) : bytes = frame.bytes ∧ frame.bytes.length ≤ avail := by
  have hin : frameIn avail frame = some bytes := by
    cases frame <;> exact h
  unfold frameIn at hin
  split at hin
  · cases hin
  · rename_i hfits
    exact ⟨(Option.some.inj hin).symm, Nat.le_of_not_lt hfits⟩

theorem writeFrames_eq_some : ∀ {frames : List Frame} {start payload : Bytes},
    writeFrames start frames = some payload →
      payload = start ++ frames.flatMap Frame.bytes ∧ ∀ f ∈ frames, f.bytes.length ≤ mtu := by
  intro frames
  induction frames with
  | nil =>
    intro start payload h
    obtain rfl := Option.some.inj h
    exact ⟨(List.append_nil _).symm, List.forall_mem_nil _⟩
  | cons frame rest ih =>
    intro start payload h
    rw [writeFrames] at h
    cases hwrite : frame.write (mtu - start.length) with
    | none => rw [hwrite] at h; cases h
    | some bytes =>
      rw [hwrite] at h
      obtain ⟨rfl, hle⟩ := write_eq_some hwrite
      obtain ⟨hpayload, hrest⟩ := ih h
      refine ⟨?_, fun f hf => ?_⟩
      · rw [hpayload, List.flatMap_cons, List.append_assoc]
      · rcases List.mem_cons.mp hf with rfl | hmem
        · exact Nat.le_trans hle (Nat.sub_le _ _)
        · exact hrest f hmem

/-- A frame is read back, what follows it is left, and nothing may follow it unless it
carries a message. -/
theorem readFrame_encodable {n : Nat} (hn : n ≤ 256) {f : Frame} (hf : f.Encodable n)
    (hsize : f.bytes.length ≤ mtu) {tail : Bytes} (htail : f.isMessage = true ∨ tail = []) :
    readFrame n (f.bytes ++ tail) = some (f, tail) := by
  cases f with
  | unreliableData ch data =>
    refine readFrame_bytes (f := .unreliableData ch data) hn ⟨hf, ?_⟩ tail
    simp only [Frame.bytes, List.length_append, mtu] at hsize
    exact Nat.lt_of_le_of_lt (Nat.le_trans (Nat.le_add_left _ _) hsize) (by decide)
  | reliableData ch msgSeq data =>
    refine readFrame_bytes (f := .reliableData ch msgSeq data) hn ⟨hf.1, hf.2, ?_⟩ tail
    simp only [Frame.bytes, List.length_append, mtu] at hsize
    exact Nat.lt_of_le_of_lt (Nat.le_trans (Nat.le_add_left _ _) hsize) (by decide)
  | fragmentData ch msgId fragIdx fragCnt data =>
    obtain ⟨hch, hid, hidx, hcnt, hne⟩ := hf
    obtain rfl : tail = [] := htail.resolve_left Bool.false_ne_true
    have hbytes : (Frame.fragmentData ch msgId fragIdx fragCnt data).bytes ++ [] =
        frameFragmentData :: UInt8.ofNat ch :: UInt8.ofNat msgId :: UInt8.ofNat (msgId / 256) ::
          UInt8.ofNat fragIdx :: UInt8.ofNat fragCnt :: data := by
      simp [Frame.bytes, leBytes]
    have hun : frameFragmentData ≠ frameUnreliableData := by decide
    have hre : frameFragmentData ≠ frameReliableData := by decide
    rw [hbytes]
    simp [readFrame, hun, hre, toNat_channel (Nat.le_refl 256) hch,
      toNat_channel (Nat.le_refl 256) hidx, toNat_channel (Nat.le_refl 256) hcnt,
      leNat_u16 hid, hne]
  | disconnect reason =>
    obtain rfl : tail = [] := htail.resolve_left Bool.false_ne_true
    have hbytes : (Frame.disconnect reason).bytes ++ [] =
        [frameDisconnect, UInt8.ofNat reason] := rfl
    have hun : frameDisconnect ≠ frameUnreliableData := by decide
    have hre : frameDisconnect ≠ frameReliableData := by decide
    have hfr : frameDisconnect ≠ frameFragmentData := by decide
    rw [hbytes]
    simp [readFrame, hun, hre, hfr, toNat_channel (Nat.le_refl 256) hf]

theorem readAckFields_writeAckFields {ack : AckFields} (hack : ack.ack < u16Size)
    (hdelay : ack.ackDelayUs < u16Size) (tail : Bytes) :
    readAckFields (writeAckFields ack ++ tail) = ack := by
  have hbits : leNat (leBytes 4 ack.ackBits.toNat) = ack.ackBits.toNat :=
    leNat_leBytes_of_lt ack.ackBits.isLt
  have hfirst : (writeAckFields ack ++ tail).take 2 = leBytes 2 ack.ack := by
    simp [writeAckFields, List.append_assoc, List.take_left']
  have hsecond : ((writeAckFields ack ++ tail).drop 2).take 4 = leBytes 4 ack.ackBits.toNat := by
    simp [writeAckFields, List.append_assoc, List.drop_left', List.take_left']
  have hthird : ((writeAckFields ack ++ tail).drop 6).take 2 = leBytes 2 ack.ackDelayUs := by
    have hsplit : writeAckFields ack ++ tail =
        (leBytes 2 ack.ack ++ leBytes 4 ack.ackBits.toNat) ++ (leBytes 2 ack.ackDelayUs ++ tail) := by
      simp [writeAckFields, List.append_assoc]
    rw [hsplit, List.drop_left' (by simp), List.take_left' (by simp)]
  rw [readAckFields, hfirst, hsecond, hthird, leNat_leBytes_of_lt hack, hbits,
    leNat_leBytes_of_lt hdelay, BitVec.ofNat_toNat]
  simp

theorem bytes_ne_nil (f : Frame) : f.bytes ≠ [] := by
  cases f <;> exact List.cons_ne_nil _ _

/-- Only frames that carry messages are followed by others. -/
def MessagesFirst (frames : List Frame) : Prop :=
  frames.IsChain fun f _ => f.isMessage = true

theorem messagesFirst_cons {f : Frame} {rest : List Frame} :
    MessagesFirst (f :: rest) ↔ (f.isMessage = true ∨ rest = []) ∧ MessagesFirst rest := by
  unfold MessagesFirst
  cases rest with
  | nil => simp
  | cons g rest => simp

theorem messagesFirst_append {fs : List Frame} (h : ∀ f ∈ fs, f.isMessage = true)
    (last : Option Frame) : MessagesFirst (fs ++ last.toList) := by
  induction fs with
  | nil =>
    cases last with
    | none => exact List.IsChain.nil
    | some f => exact List.IsChain.singleton f
  | cons f rest ih =>
    exact messagesFirst_cons.mpr ⟨Or.inl (h f List.mem_cons_self),
      ih fun g hg => h g (List.mem_cons_of_mem _ hg)⟩

/-- The first of the frames that bytes are made of is the one that is read. -/
theorem readFrame_flatMap {n : Nat} (hn : n ≤ 256) {frames : List Frame} {bytes : Bytes}
    (hsome : bytes ≠ []) (hbytes : bytes = frames.flatMap Frame.bytes)
    (hfirst : MessagesFirst frames)
    (hframes : ∀ f ∈ frames, f.Encodable n ∧ f.bytes.length ≤ mtu) :
    ∃ f rest, frames = f :: rest ∧ readFrame n bytes = some (f, rest.flatMap Frame.bytes) := by
  cases frames with
  | nil => exact absurd hbytes hsome
  | cons f rest =>
    refine ⟨f, rest, rfl, ?_⟩
    obtain ⟨hencodable, hsize⟩ := hframes f List.mem_cons_self
    rw [hbytes, List.flatMap_cons]
    refine readFrame_encodable hn hencodable hsize ?_
    exact (messagesFirst_cons.mp hfirst).1.imp_right fun hnil => by rw [hnil]; rfl

/-- The server's loop over bytes that are frames meets these frames and reads all of the
bytes. -/
theorem serverFrameLoop_reads_back (now : Time) (c : Connection Key) {frames : List Frame}
    {plaintext : Bytes} (hstart : 8 ≤ plaintext.length)
    (hbytes : plaintext.drop 8 = frames.flatMap Frame.bytes) (hfirst : MessagesFirst frames)
    (hframes : ∀ f ∈ frames, f.Encodable c.numChannels ∧ f.bytes.length ≤ mtu) :
    FrameAction.frames (serverFrameLoop now c plaintext).actions = frames ∧
      Tiles 8 (reads (serverFrameLoop now c plaintext).actions) plaintext.length := by
  -- What is left to read is always the bytes of some last part of the frames.
  let P : Nat → Connection Key → Scanned FrameAction (Connection Key) → Prop := fun pos c out =>
    ∀ gs : List Frame, pos ≤ plaintext.length → plaintext.drop pos = gs.flatMap Frame.bytes →
      MessagesFirst gs → (∀ f ∈ gs, f.Encodable c.numChannels ∧ f.bytes.length ≤ mtu) →
      FrameAction.frames out.actions = gs ∧ Tiles pos (reads out.actions) plaintext.length
  have hscan : P 8 c (serverFrameLoop now c plaintext) := by
    refine scan_rule P ?_ ?_ _ _ _ (Nat.le_add_left _ _)
    · intro pos c hend gs hpos hdrop _ _
      rw [List.drop_eq_nil_of_le hend] at hdrop
      cases gs with
      | nil => exact ⟨rfl, Nat.le_antisymm hpos hend⟩
      | cons f rest =>
        rw [List.flatMap_cons] at hdrop
        exact absurd (List.append_eq_nil_iff.mp hdrop.symm).1 (bytes_ne_nil f)
    · intro pos c hpos
      have hleft : plaintext.drop pos ≠ [] := by
        rw [Ne, List.drop_eq_nil_iff]
        omega
      have hchannels : c.numChannels ≤ 256 := Nat.le_trans c.numChannels_le (by decide)
      obtain ⟨rs, stop, htiles, hle, ⟨hread, heq⟩ | ⟨reason, hread, hstop, heq⟩ |
        ⟨frame, hne, hlt, hread, heq⟩⟩ := serverFrameRound_follows now plaintext pos c hpos
      · refine Or.inl ⟨_, _, heq, fun gs _ hdrop hfirst hgs => ?_⟩
        obtain ⟨f, rest, -, hsome⟩ := readFrame_flatMap hchannels hleft hdrop hfirst hgs
        rw [hread] at hsome
        cases hsome
      · refine Or.inr (Or.inl ⟨_, _, heq, fun gs _ hdrop hfirst hgs => ?_⟩)
        obtain ⟨f, rest, rfl, hsome⟩ := readFrame_flatMap hchannels hleft hdrop hfirst hgs
        rw [hread] at hsome
        obtain ⟨rfl, -⟩ := Prod.mk.inj (Option.some.inj hsome)
        obtain rfl : rest = [] :=
          (messagesFirst_cons.mp hfirst).1.resolve_left Bool.false_ne_true
        have hlen := congrArg List.length hdrop
        simp only [List.length_drop, List.flatMap_cons, List.flatMap_nil, List.append_nil,
          Frame.bytes, List.length_cons, List.length_nil] at hlen
        rw [frames_ofRound, reads_ofRound]
        exact ⟨rfl, (show stop = plaintext.length by omega) ▸ htiles⟩
      · refine Or.inr (Or.inr ⟨_, _, _, heq, hlt, fun out hout gs _ hdrop hfirst hgs => ?_⟩)
        obtain ⟨f, rest, rfl, hsome⟩ := readFrame_flatMap hchannels hleft hdrop hfirst hgs
        rw [hread] at hsome
        obtain ⟨rfl, hrest⟩ := Prod.mk.inj (Option.some.inj hsome)
        obtain ⟨hmet, htiled⟩ := hout rest hle hrest (messagesFirst_cons.mp hfirst).2 (by
          rw [applyFrame_numChannels]
          exact fun g hg => hgs g (List.mem_cons_of_mem _ hg))
        refine ⟨?_, ?_⟩
        · rw [frames_append, frames_ofRound, hmet]
          rfl
        · rw [reads_append, reads_ofRound]
          exact tiles_append htiles htiled
  exact hscan frames hstart hbytes hfirst hframes

/-- **Payloads are read back.**  The acknowledgement and frames written one after another,
messages and then at most one frame of another kind, are what the server's loop finds;
it reads the payload to its last byte. -/
theorem written_payload_read_back (now : Time) (c : Connection Key) {ack : AckFields}
    (hack : ack.ack < u16Size) (hdelay : ack.ackDelayUs < u16Size) {fs : List Frame}
    (hfs : ∀ f ∈ fs, f.isMessage = true) (last : Option Frame)
    (hencodable : ∀ f ∈ fs ++ last.toList, f.Encodable c.numChannels) {payload : Bytes}
    (hwrite : writeFrames (writeAckFields ack) (fs ++ last.toList) = some payload) :
    readAckFields payload = ack ∧
      FrameAction.frames (serverFrameLoop now c payload).actions = fs ++ last.toList ∧
      Tiles 8 (reads (serverFrameLoop now c payload).actions) payload.length := by
  obtain ⟨rfl, hsizes⟩ := writeFrames_eq_some hwrite
  have hlen := length_writeAckFields ack
  refine ⟨readAckFields_writeAckFields hack hdelay _, serverFrameLoop_reads_back now c ?_ ?_
    (messagesFirst_append hfs last) fun f hf => ⟨hencodable f hf, hsizes f hf⟩⟩
  · rw [List.length_append, hlen]
    exact Nat.le_add_right _ _
  · exact List.drop_left' hlen

/-- A connection with two channels. -/
def twoChannels : Connection Nat :=
  (Connection.idle toyCipher).initSubsystems [{}, { type := .reliableOrdered }] 0

/-- Two messages and a fragment in one payload. -/
theorem mixed_payload_read_back :
    let frames : List Frame := [.unreliableData 0 [1, 2], .reliableData 1 65535 []]
    let last : Option Frame := some (.fragmentData 0 7 0 2 [9])
    ∃ payload, writeFrames (writeAckFields ⟨3, 5, 0⟩) (frames ++ last.toList) = some payload ∧
      readAckFields payload = ⟨3, 5, 0⟩ ∧
      FrameAction.frames (serverFrameLoop 0 twoChannels payload).actions = frames ++ last.toList ∧
      Tiles 8 (reads (serverFrameLoop 0 twoChannels payload).actions) payload.length := by
  refine ⟨_, rfl, written_payload_read_back 0 twoChannels (by decide) (by decide) (by decide)
    (some (.fragmentData 0 7 0 2 [9])) ?_ rfl⟩
  intro f hf
  simp only [Option.toList, List.cons_append, List.nil_append, List.mem_cons,
    List.not_mem_nil, or_false] at hf
  rcases hf with rfl | rfl | rfl
  · exact (by decide : 0 < 2)
  · exact (by decide : 1 < 2 ∧ 65535 < u16Size)
  · exact (by decide : 0 < 256 ∧ 7 < u16Size ∧ 0 < 256 ∧ 2 < 256 ∧ ([9] : Bytes) ≠ [])

/-! ### Client and server -/

/-- The frame is a fragment. -/
def Frame.isFragment : Frame → Bool
  | .fragmentData .. => true
  | _ => false

/-- The frame as the client reads it. -/
def Frame.sansReason : Frame → Frame
  | .disconnect _ => .disconnect 0
  | frame => frame

/-- What the frame loops work on, fragments apart, is the same. -/
structure SameInbox (s c : Connection Key) : Prop where
  numChannels : c.numChannels = s.numChannels
  channels : c.cdata.channels = s.cdata.channels
  reliableState : c.cdata.reliableState = s.cdata.reliableState
  deliveredMessages : c.cdata.deliveredMessages = s.cdata.deliveredMessages

theorem clientReadFrames_eq (n : Nat) : ∀ (fuel : Nat) (bytes : Bytes),
    (∀ f ∈ readFrames n fuel bytes, f.isFragment = false) →
      clientReadFrames n fuel bytes = (readFrames n fuel bytes).map Frame.sansReason := by
  intro fuel
  induction fuel with
  | zero => exact fun _ _ => rfl
  | succ fuel ih =>
    intro bytes hno
    rw [readFrames] at hno ⊢
    rw [clientReadFrames, clientReadFrame_eq]
    cases hread : readFrame n bytes with
    | none => rfl
    | some result =>
      obtain ⟨frame, rest⟩ := result
      rw [hread] at hno
      have hrest := ih rest fun f hf => hno f (List.mem_cons_of_mem _ hf)
      cases frame with
      | unreliableData ch data => exact congrArg (_ :: ·) hrest
      | reliableData ch msgSeq data => exact congrArg (_ :: ·) hrest
      | fragmentData ch msgId fragIdx fragCnt data =>
        exact Bool.noConfusion (hno _ List.mem_cons_self)
      | disconnect reason => exact congrArg (_ :: ·) hrest

section Agreement

variable {s c : Connection Key} (now : Time)

theorem SameInbox.deliver (h : SameInbox s c) (msg : DeliveredMessage) :
    SameInbox (s.deliver msg) (c.deliver msg) where
  numChannels := h.numChannels
  channels := h.channels
  reliableState := h.reliableState
  deliveredMessages := by
    simp only [Connection.deliver, h.deliveredMessages]

theorem SameInbox.deliverAll (h : SameInbox s c) (msgs : List DeliveredMessage) :
    SameInbox (msgs.foldl Connection.deliver s) (msgs.foldl Connection.deliver c) := by
  induction msgs generalizing s c with
  | nil => exact h
  | cons msg rest ih => exact ih (h.deliver msg)

theorem SameInbox.setRs (h : SameInbox s c) (ch : Nat) (st : ReliableChannelState) :
    SameInbox (s.setRs ch st) (c.setRs ch st) where
  numChannels := h.numChannels
  channels := h.channels
  reliableState := by
    simp only [Connection.setRs, h.reliableState]
  deliveredMessages := h.deliveredMessages

theorem SameInbox.onReliableData (h : SameInbox s c) (ch msgSeq : Nat) (data : Bytes) :
    (c.onReliableData ch msgSeq data).1 = (s.onReliableData ch msgSeq data).1 ∧
      SameInbox (s.onReliableData ch msgSeq data).2 (c.onReliableData ch msgSeq data).2 := by
  have hch : c.ch ch = s.ch ch := congrArg (fun t => t.get ch) h.channels
  have hrs : c.rs ch = s.rs ch := congrArg (fun t => t.get ch) h.reliableState
  unfold Connection.onReliableData
  rw [hch, hrs]
  cases (s.ch ch).config.type with
  | reliableOrdered =>
    cases hbuffer : (s.rs ch).bufferReceivedOrdered msgSeq data with
    | mk taken st =>
      cases taken with
      | false => exact ⟨rfl, h.setRs ch _⟩
      | true => exact ⟨rfl, h.setRs ch _⟩
  | reliableUnordered =>
    cases hseen : (s.rs ch).isReceivedUnordered msgSeq with
    | true => exact ⟨rfl, h⟩
    | false => exact ⟨rfl, h.setRs ch _⟩
  | unreliable => exact ⟨rfl, h⟩
  | unreliableSequenced => exact ⟨rfl, h⟩

/-- A frame that is no fragment releases the same and leaves the same. -/
theorem SameInbox.applyFrame (h : SameInbox s c) {frame : Frame} (hno : frame.isFragment = false) :
    (c.onFrame now frame).1 = (s.onFrame now frame).1 ∧
      SameInbox (s.applyFrame now frame) (c.applyFrame now frame) := by
  have hframe : (c.onFrame now frame).1 = (s.onFrame now frame).1 ∧
      SameInbox (s.onFrame now frame).2 (c.onFrame now frame).2 := by
    cases frame with
    | unreliableData ch data => exact ⟨rfl, h⟩
    | reliableData ch msgSeq data => exact h.onReliableData ch msgSeq data
    | fragmentData ch msgId fragIdx fragCnt data => cases hno
    | disconnect reason => exact ⟨rfl, h⟩
  have hcount : ∀ {s c : Connection Key} (k : Nat), SameInbox s c →
      SameInbox (s.countFrame k frame) (c.countFrame k frame) := by
    intro s c k h
    rw [countFrame_books, countFrame_books c]
    exact ⟨h.numChannels, h.channels, h.reliableState, h.deliveredMessages⟩
  refine ⟨hframe.1, ?_⟩
  rw [applyFrame_eq_foldl, applyFrame_eq_foldl, hframe.1]
  exact (hcount _ hframe.2).deliverAll _

/-- So do frames, whatever reason a DISCONNECT gives. -/
theorem SameInbox.applyFrames {frames : List Frame} (h : SameInbox s c)
    (hno : ∀ f ∈ frames, f.isFragment = false) :
    c.releases now (frames.map Frame.sansReason) = s.releases now frames ∧
      (c.applyFrames now (frames.map Frame.sansReason)).2 = (s.applyFrames now frames).2 ∧
      SameInbox (s.applyFrames now frames).1
        (c.applyFrames now (frames.map Frame.sansReason)).1 := by
  induction frames generalizing s c with
  | nil => exact ⟨rfl, rfl, h⟩
  | cons frame rest ih =>
    obtain ⟨hreleased, hstate⟩ := h.applyFrame now (hno frame List.mem_cons_self)
    obtain ⟨hrest, hquit, hend⟩ := ih hstate fun f hf => hno f (List.mem_cons_of_mem _ hf)
    cases frame with
    | disconnect reason => exact ⟨rfl, rfl, h⟩
    | fragmentData ch msgId fragIdx fragCnt data =>
      exact Bool.noConfusion (hno _ List.mem_cons_self)
    | unreliableData ch data =>
      exact ⟨congrArg₂ (· ++ ·) hreleased hrest, hquit, hend⟩
    | reliableData ch msgSeq data =>
      exact ⟨congrArg₂ (· ++ ·) hreleased hrest, hquit, hend⟩

end Agreement

/-- **Client and server decode alike.**  On any bytes among which the server meets no
fragment, the two loops push the same messages, leave the same channels and queue, and
agree on whether the peer is gone. -/
theorem loops_decode_alike (now : Time) {s c : Connection Key} (h : SameInbox s c)
    {plaintext : Bytes}
    (hno : ∀ f ∈ frames (serverFrameLoop now s plaintext).actions, f.isFragment = false) :
    messages (clientFrameLoop c plaintext).actions =
        messages (serverFrameLoop now s plaintext).actions ∧
      SameInbox (serverFrameLoop now s plaintext).state (clientFrameLoop c plaintext).state ∧
      (clientFrameLoop c plaintext).quit = (serverFrameLoop now s plaintext).quit := by
  have hserver := serverFrameLoop_walked now s plaintext
  have hclient := clientFrameLoop_walked now c plaintext
  have hframes : frames (clientFrameLoop c plaintext).actions =
      (frames (serverFrameLoop now s plaintext).actions).map Frame.sansReason := by
    rw [serverFrameLoop_frames] at hno ⊢
    rw [clientFrameLoop_frames, h.numChannels]
    exact clientReadFrames_eq _ _ _ hno
  obtain ⟨hreleases, hquit, hstate⟩ := h.applyFrames now hno
  rw [hserver.pushed, hclient.pushed, hserver.state, hclient.state, hserver.quit, hclient.quit,
    hframes, hreleases, hquit]
  refine ⟨rfl, ?_, rfl⟩
  split
  · exact ⟨hstate.numChannels, hstate.channels, hstate.reliableState, hstate.deliveredMessages⟩
  · exact hstate

/-- A reliable message and a frame that is cut off: both sides take the first and stop at
the second. -/
theorem cut_off_frame_decoded_alike :
    let plaintext : Bytes := List.replicate 8 0 ++ [4, 1, 0, 0, 2, 0, 7, 8] ++ [3, 0, 9, 0, 1]
    (messages (clientFrameLoop twoChannels plaintext).actions).map (fun msg => msg.data) =
        [[7, 8]] ∧
      messages (clientFrameLoop twoChannels plaintext).actions =
        messages (serverFrameLoop 0 twoChannels plaintext).actions :=
  ⟨by decide +kernel, (loops_decode_alike 0 ⟨rfl, rfl, rfl, rfl⟩ (by decide +kernel)).1⟩

/-! ### Bounds -/

/-- What a loop has done stays in bounds: it reads below the end of the plaintext, copies
no more than a message holds, and pushes for channels there are. -/
structure InBounds (ptLen numChannels : Nat) (actions : List FrameAction) : Prop where
  reads : ∀ pos len, (pos, len) ∈ reads actions → pos + len ≤ ptLen
  copies : ∀ len ∈ copies actions, len ≤ mtu
  channels : ∀ msg ∈ messages actions, msg.channel < numChannels

/-- The frame fits into what it is delivered to: an unreliable message into the data of
a `DeliveredMessage`, and a fragment that completes a message is for a channel there
is. -/
def Frame.Fits (now : Time) (c : Connection Key) : Frame → Prop
  | .unreliableData _ data => data.length ≤ mtu
  | .reliableData .. => True
  | .fragmentData ch msgId fragIdx fragCnt data =>
    ch < c.numChannels ∨ (c.cdata.fragmentReassembler.onFragmentReceived msgId fragIdx fragCnt
      data (mtu - 64) now).1.getD [] = []
  | .disconnect _ => True

/-- The frame's channel has been checked, if that is done for its kind. -/
def Frame.Addressed (n : Nat) : Frame → Prop
  | .unreliableData ch _ => ch < n
  | .reliableData ch _ _ => ch < n
  | _ => True

theorem readFrame_addressed {n : Nat} {bytes rest : Bytes} {f : Frame}
    (h : readFrame n bytes = some (f, rest)) :
    f.Addressed n ∧ (f.isMessage = true ∨ rest = []) := by
  cases bytes with
  | nil => cases h
  | cons frameType tail =>
    simp only [readFrame] at h
    split at h
    · split at h
      · cases h
      · rename_i hnot
        obtain ⟨rfl, -⟩ := Prod.mk.inj (Option.some.inj h)
        exact ⟨Nat.lt_of_not_le fun hle => hnot (Or.inr hle), Or.inl rfl⟩
    split at h
    · split at h
      · cases h
      · rename_i hnot
        obtain ⟨rfl, -⟩ := Prod.mk.inj (Option.some.inj h)
        exact ⟨Nat.lt_of_not_le fun hle => hnot (Or.inr hle), Or.inl rfl⟩
    split at h
    · split at h
      · cases h
      · obtain ⟨rfl, rfl⟩ := Prod.mk.inj (Option.some.inj h)
        exact ⟨trivial, Or.inr rfl⟩
    split at h
    · obtain ⟨rfl, rfl⟩ := Prod.mk.inj (Option.some.inj h)
      exact ⟨trivial, Or.inr rfl⟩
    · cases h

theorem clientReadFrame_addressed {n : Nat} {bytes rest : Bytes} {f : Frame}
    (h : clientReadFrame n bytes = some (f, rest)) :
    f.Addressed n ∧ (f.isMessage = true ∨ rest = []) := by
  rw [clientReadFrame_eq] at h
  obtain ⟨⟨g, rest'⟩, hread, hclient⟩ := Option.bind_eq_some_iff.mp h
  obtain ⟨haddressed, hlast⟩ := readFrame_addressed hread
  cases g with
  | unreliableData ch data =>
    obtain ⟨rfl, rfl⟩ := Prod.mk.inj (Option.some.inj hclient)
    exact ⟨haddressed, hlast⟩
  | reliableData ch msgSeq data =>
    obtain ⟨rfl, rfl⟩ := Prod.mk.inj (Option.some.inj hclient)
    exact ⟨haddressed, hlast⟩
  | fragmentData ch msgId fragIdx fragCnt data => cases hclient
  | disconnect reason =>
    obtain ⟨rfl, rfl⟩ := Prod.mk.inj (Option.some.inj hclient)
    exact ⟨trivial, Or.inr (hlast.resolve_left Bool.false_ne_true)⟩

/-- Frames as the loops meet them: the channels of messages are checked, and the walk goes
on after a message only. -/
structure WellRead (n : Nat) (frames : List Frame) : Prop where
  addressed : ∀ f ∈ frames, f.Addressed n
  messagesFirst : MessagesFirst frames

theorem walkFrames_wellRead {n : Nat} {read : Bytes → Option (Frame × Bytes)}
    (hnil : read [] = none)
    (hread : ∀ {bytes f rest}, read bytes = some (f, rest) →
      f.Addressed n ∧ (f.isMessage = true ∨ rest = [])) :
    ∀ (fuel : Nat) (bytes : Bytes), WellRead n (walkFrames read fuel bytes) := by
  intro fuel
  induction fuel with
  | zero => exact fun _ => ⟨List.forall_mem_nil _, List.IsChain.nil⟩
  | succ fuel ih =>
    intro bytes
    rw [walkFrames]
    cases hfound : read bytes with
    | none => exact ⟨List.forall_mem_nil _, List.IsChain.nil⟩
    | some result =>
      obtain ⟨frame, rest⟩ := result
      obtain ⟨haddressed, hlast⟩ := hread hfound
      refine ⟨fun f hf => ?_, messagesFirst_cons.mpr ⟨hlast.imp_right ?_, (ih rest).messagesFirst⟩⟩
      · rcases List.mem_cons.mp hf with rfl | hmem
        · exact haddressed
        · exact (ih rest).addressed f hmem
      · intro hrest
        rw [hrest]
        cases fuel with
        | zero => rfl
        | succ fuel => rw [walkFrames, hnil]

section Bounds

variable (now : Time) {c : Connection Key}

/-- A message fits into its place. -/
def Delivers (n : Nat) (msg : DeliveredMessage) : Prop :=
  msg.data.length ≤ mtu ∧ msg.channel < n

theorem onReliableData_delivers {ch : Nat} (hch : ch < c.numChannels) (msgSeq : Nat)
    (data : Bytes) : ∀ msg ∈ (c.onReliableData ch msgSeq data).1, Delivers c.numChannels msg := by
  have hcut : ∀ bytes : Bytes, (bytes.take mtu).length ≤ mtu := fun bytes => by simp
  unfold Connection.onReliableData
  split
  · split
    · exact List.forall_mem_nil _
    · intro msg hmsg
      obtain ⟨⟨bytes, seq⟩, -, rfl⟩ := List.mem_map.mp hmsg
      exact ⟨hcut bytes, hch⟩
  · split
    · exact List.forall_mem_nil _
    · intro msg hmsg
      obtain rfl := List.mem_singleton.mp hmsg
      exact ⟨hcut data, hch⟩
  · exact List.forall_mem_nil _

/-- What a frame releases fits if the frame does. -/
theorem onFrame_delivers_iff {f : Frame} (hf : f.Addressed c.numChannels) :
    (∀ msg ∈ (c.onFrame now f).1, Delivers c.numChannels msg) ↔ f.Fits now c := by
  cases f with
  | unreliableData ch data =>
    refine ⟨fun h => (h _ List.mem_cons_self).1, fun h msg hmsg => ?_⟩
    obtain rfl := List.mem_singleton.mp hmsg
    exact ⟨h, hf⟩
  | reliableData ch msgSeq data =>
    exact iff_of_true (onReliableData_delivers hf msgSeq data) trivial
  | fragmentData ch msgId fragIdx fragCnt data =>
    simp only [Connection.onFrame, Frame.Fits]
    cases (c.cdata.fragmentReassembler.onFragmentReceived msgId fragIdx fragCnt data (mtu - 64)
      now).1 with
    | none => exact iff_of_true (List.forall_mem_nil _) (Or.inr rfl)
    | some message =>
      by_cases hempty : message.length = 0
      · simp only [if_pos hempty]
        exact iff_of_true (List.forall_mem_nil _)
          (Or.inr (List.length_eq_zero_iff.mp hempty))
      · simp only [if_neg hempty]
        refine ⟨fun h => Or.inl (h _ List.mem_cons_self).2, fun h msg hmsg => ?_⟩
        obtain rfl := List.mem_singleton.mp hmsg
        refine ⟨by simp, h.resolve_right fun hnil => hempty ?_⟩
        exact List.length_eq_zero_iff.mpr hnil
  | disconnect reason => exact iff_of_true (List.forall_mem_nil _) trivial

theorem foldl_deliver_reassembler (msgs : List DeliveredMessage) : ∀ c : Connection Key,
    (msgs.foldl Connection.deliver c).cdata.fragmentReassembler = c.cdata.fragmentReassembler := by
  induction msgs with
  | nil => exact fun c => rfl
  | cons msg rest ih => exact fun c => ih (c.deliver msg)

/-- A message leaves the reassembler alone, and so what fits fits after it. -/
theorem fits_applyFrame_iff {f : Frame} (hf : f.isMessage = true) (g : Frame) :
    g.Fits now (c.applyFrame now f) ↔ g.Fits now c := by
  have hreassembler : (c.applyFrame now f).cdata.fragmentReassembler =
      c.cdata.fragmentReassembler := by
    rw [applyFrame_eq_foldl, foldl_deliver_reassembler, countFrame_cdata]
    cases f with
    | unreliableData ch data => rfl
    | reliableData ch msgSeq data =>
      simp only [Connection.onFrame, Connection.onReliableData]
      split
      · split
        · rfl
        · rfl
      · split
        · rfl
        · rfl
      · rfl
    | fragmentData ch msgId fragIdx fragCnt data => cases hf
    | disconnect reason => cases hf
  cases g with
  | unreliableData ch data => exact Iff.rfl
  | reliableData ch msgSeq data => exact Iff.rfl
  | fragmentData ch msgId fragIdx fragCnt data =>
    rw [Frame.Fits, Frame.Fits, applyFrame_numChannels, hreassembler]
  | disconnect reason => exact Iff.rfl

/-- What the frames of a payload release fits if they do, each as if it were the first. -/
theorem releases_deliver_iff {frames : List Frame} (h : WellRead c.numChannels frames) :
    (∀ msg ∈ c.releases now frames, Delivers c.numChannels msg) ↔
      ∀ f ∈ frames, f.Fits now c := by
  induction frames generalizing c with
  | nil =>
    exact iff_of_true (List.forall_mem_nil _)
      (List.forall_mem_nil _)
  | cons frame rest ih =>
    have haddressed := h.addressed frame List.mem_cons_self
    obtain ⟨hmessage, hrest⟩ := messagesFirst_cons.mp h.messagesFirst
    by_cases hdis : ∃ reason, frame = .disconnect reason
    · obtain ⟨reason, rfl⟩ := hdis
      obtain rfl : rest = [] := hmessage.resolve_left Bool.false_ne_true
      refine iff_of_true (List.forall_mem_nil _) fun f hf => ?_
      obtain rfl := List.mem_singleton.mp hf
      trivial
    · rw [(applyFrames_cons now c (fun reason heq => hdis ⟨reason, heq⟩) rest).2,
        List.forall_mem_append, List.forall_mem_cons, onFrame_delivers_iff now haddressed]
      refine and_congr_right fun _ => ?_
      rcases hmessage with hmessage | rfl
      · have hnum := applyFrame_numChannels now c frame
        have hmore := @ih (c.applyFrame now frame) (by
          rw [hnum]
          exact ⟨fun f hf => h.addressed f (List.mem_cons_of_mem _ hf), hrest⟩)
        rw [hnum] at hmore
        exact hmore.trans (forall₂_congr fun f _ => fits_applyFrame_iff now hmessage f)
      · exact iff_of_true (List.forall_mem_nil _)
          (List.forall_mem_nil _)

/-- A loop that walks over well-read frames stays in bounds if they fit; it reads below
the end in any case. -/
theorem walked_inBounds_iff {plaintext : Bytes} {read : Nat → Bytes → Option (Frame × Bytes)}
    {onQuit : Connection Key → Connection Key} {out : Scanned FrameAction (Connection Key)}
    (hwalked : Walked now plaintext read onQuit 8 c out)
    (hwell : WellRead c.numChannels (frames out.actions))
    (hshort : plaintext.length ≤ 8 → out.actions = []) :
    InBounds plaintext.length c.numChannels out.actions ↔
      ∀ f ∈ frames out.actions, f.Fits now c := by
  have hreads : ∀ pos len, (pos, len) ∈ reads out.actions → pos + len ≤ plaintext.length := by
    intro pos len hmem
    by_cases hlen : plaintext.length ≤ 8
    · rw [hshort hlen] at hmem
      exact absurd hmem List.not_mem_nil
    · obtain ⟨stop, htiles, hstop⟩ := hwalked.read
      have hwithin := htiles.within hmem
      omega
  rw [← releases_deliver_iff now hwell, ← hwalked.pushed]
  constructor
  · intro h msg hmsg
    refine ⟨h.copies _ ?_, h.channels msg hmsg⟩
    rw [hwalked.copied]
    exact List.mem_map_of_mem hmsg
  · refine fun h => ⟨hreads, fun len hlen => ?_, fun msg hmsg => (h msg hmsg).2⟩
    rw [hwalked.copied] at hlen
    obtain ⟨msg, hmsg, rfl⟩ := List.mem_map.mp hlen
    exact (h msg hmsg).1

end Bounds

/-- **The loops stay in bounds on the payloads whose frames fit, and on no others.** -/
theorem loops_in_bounds_iff (now : Time) (c : Connection Key) (plaintext : Bytes) :
    (InBounds plaintext.length c.numChannels (serverFrameLoop now c plaintext).actions ↔
        ∀ f ∈ payloadFrames c.numChannels plaintext, f.Fits now c) ∧
      (InBounds plaintext.length c.numChannels (clientFrameLoop c plaintext).actions ↔
        ∀ f ∈ clientPayloadFrames c.numChannels plaintext, f.Fits now c) := by
  rw [← serverFrameLoop_frames now c plaintext, ← clientFrameLoop_frames c plaintext]
  constructor
  · refine walked_inBounds_iff now (serverFrameLoop_walked now c plaintext) ?_ fun hlen => ?_
    · rw [serverFrameLoop_frames, payloadFrames, ← walkFrames_readFrame]
      exact walkFrames_wellRead rfl readFrame_addressed _ _
    · rw [serverFrameLoop, scan_done _ _ _ hlen]
  · refine walked_inBounds_iff now (clientFrameLoop_walked now c plaintext) ?_ fun hlen => ?_
    · rw [clientFrameLoop_frames, clientPayloadFrames, ← walkFrames_clientReadFrame]
      exact walkFrames_wellRead rfl clientReadFrame_addressed _ _
    · rw [clientFrameLoop, scan_done _ _ _ hlen]

/-- An acknowledgement and one unreliable frame of 1201 bytes, in a packet that may be
received. -/
def longPayload : Bytes :=
  List.replicate 8 0 ++ (Frame.unreliableData 0 (List.replicate 1201 0)).bytes

/-- An acknowledgement and the only fragment of a message, for a channel there is not. -/
def strayPayload : Bytes := List.replicate 8 0 ++ (Frame.fragmentData 7 0 0 1 [42]).bytes

/-- Both loops copy 1201 bytes into a message of 1200, and the server delivers the stray
fragment. -/
theorem long_and_stray_frames_out_of_bounds :
    longPayload.length ≤ 1400 ∧
      1201 ∈ copies (serverFrameLoop 0 twoChannels longPayload).actions ∧
      1201 ∈ copies (clientFrameLoop twoChannels longPayload).actions ∧
      (messages (serverFrameLoop 0 twoChannels strayPayload).actions).map
        (fun msg => msg.channel) = [7] ∧ twoChannels.numChannels = 2 := by
  decide +kernel

end Netudp
