/-
The frame loops and the frames.

The server and the client each walk over a plaintext by positions; `Server.Receive` and
`Client.Receive` say which frames there are and what is done with them.  Here the two
meet: a round of either loop reads exactly the bytes of the frame at its position, one
after another, and acts on it, or reads the part of it that shows it is none and leaves
(`RoundFollows`).  What the loop then does as a whole is what the list of frames says
(`Walked`), and that is all the rest of the file uses of it.
-/
import Netudp.Client.FrameLoop
import Netudp.Proofs.Delivery
import Mathlib.Data.List.GetD

namespace Netudp

open Lib

variable {Key : Type}

/-! ### Reading the log -/

namespace FrameAction

/-- The bytes read, in order. -/
def reads (actions : List FrameAction) : List (Nat × Nat) :=
  actions.filterMap fun
    | .read pos len => some (pos, len)
    | _ => none

/-- The frames acted on, in order. -/
def frames (actions : List FrameAction) : List Frame :=
  actions.filterMap fun
    | .met frame => some frame
    | _ => none

/-- The messages pushed, in order. -/
def messages (actions : List FrameAction) : List DeliveredMessage :=
  actions.filterMap fun
    | .pushed msg => some msg
    | _ => none

/-- The lengths copied, in order. -/
def copies (actions : List FrameAction) : List Nat :=
  actions.filterMap fun
    | .copied len => some len
    | _ => none

/-- These bytes are read, and nothing else happens. -/
def ofReads (reads : List (Nat × Nat)) : List FrameAction :=
  reads.map fun (pos, len) => .read pos len

/-- The log of a round: what it reads, the frame if there is one, and what is pushed. -/
def ofRound (rs : List (Nat × Nat)) (frame : Option Frame) (msgs : List DeliveredMessage) :
    List FrameAction :=
  ofReads rs ++ (frame.map FrameAction.met).toList ++ pushes msgs

variable (rs : List (Nat × Nat)) (frame : Option Frame) (msgs : List DeliveredMessage)

theorem filterMap_ofRound {β : Type} (pick : FrameAction → Option β) :
    (ofRound rs frame msgs).filterMap pick =
      rs.filterMap (fun r => pick (.read r.1 r.2)) ++ frame.toList.filterMap (pick ∘ met) ++
        msgs.flatMap fun msg => [.copied msg.data.length, .pushed msg].filterMap pick := by
  have hframe : (frame.map met).toList.filterMap pick = frame.toList.filterMap (pick ∘ met) := by
    cases frame with
    | none => rfl
    | some f => rfl
  unfold ofRound ofReads pushes
  rw [List.filterMap_append, List.filterMap_append, List.filterMap_map, hframe,
    List.filterMap_flatMap]
  rfl

@[simp] theorem reads_ofRound : reads (ofRound rs frame msgs) = rs := by
  rw [reads, filterMap_ofRound]
  simp

@[simp] theorem frames_ofRound : frames (ofRound rs frame msgs) = frame.toList := by
  rw [frames, filterMap_ofRound]
  simp

@[simp] theorem messages_ofRound : messages (ofRound rs frame msgs) = msgs := by
  rw [messages, filterMap_ofRound]
  simp

@[simp] theorem copies_ofRound :
    copies (ofRound rs frame msgs) = msgs.map fun msg => msg.data.length := by
  rw [copies, filterMap_ofRound, List.map_eq_flatMap]
  simp

variable (actions more : List FrameAction)

@[simp] theorem reads_append : reads (actions ++ more) = reads actions ++ reads more :=
  List.filterMap_append

@[simp] theorem frames_append : frames (actions ++ more) = frames actions ++ frames more :=
  List.filterMap_append

@[simp] theorem messages_append : messages (actions ++ more) = messages actions ++ messages more :=
  List.filterMap_append

@[simp] theorem copies_append : copies (actions ++ more) = copies actions ++ copies more :=
  List.filterMap_append

end FrameAction

open FrameAction

/-! ### A round -/

/-- The round at a position of the plaintext does what `read` finds there.  It reads from
its position on without a gap and within the plaintext; a `DISCONNECT` takes up to
`quitLen` bytes. -/
def RoundFollows (now : Time) (plaintext : Bytes)
    (read : Nat → Bytes → Option (Frame × Bytes)) (quitLen : Nat)
    (onQuit : Connection Key → Connection Key)
    (round : Nat → Connection Key → List FrameAction × Round (Connection Key)) : Prop :=
  ∀ pos c, pos < plaintext.length → ∃ rs stop, Tiles pos rs stop ∧ stop ≤ plaintext.length ∧
    ((read c.numChannels (plaintext.drop pos) = none ∧
        round pos c = (ofRound rs none [], .leave c)) ∨
      (∃ reason, read c.numChannels (plaintext.drop pos) = some (.disconnect reason, []) ∧
        stop = min (pos + quitLen) plaintext.length ∧
        round pos c = (ofRound rs (some (.disconnect reason)) [], .quit (onQuit c))) ∨
      ∃ frame, (∀ reason, frame ≠ .disconnect reason) ∧ pos < stop ∧
        read c.numChannels (plaintext.drop pos) = some (frame, plaintext.drop stop) ∧
        round pos c = (ofRound rs (some frame) (c.onFrame now frame).1,
          .next stop (c.applyFrame now frame)))

/-- The bytes from a position on: the first of them, and those behind it. -/
theorem drop_eq_byteAt_cons {plaintext : Bytes} {pos : Nat} (h : pos < plaintext.length) :
    plaintext.drop pos = byteAt plaintext pos :: plaintext.drop (pos + 1) := by
  rw [List.drop_eq_getElem_cons h, byteAt, List.getD_eq_getElem _ _ h]

theorem getD_drop (plaintext : Bytes) (pos i : Nat) :
    (plaintext.drop pos).getD i 0 = byteAt plaintext (pos + i) := by
  rw [byteAt, List.getD_eq_getElem?_getD, List.getElem?_drop, ← List.getD_eq_getElem?_getD]

/-- `readFrame` at a position, with its checks on the position. -/
theorem readFrame_at (n : Nat) {plaintext : Bytes} {pos : Nat} (h : pos < plaintext.length) :
    readFrame n (plaintext.drop pos) =
      let ch := (byteAt plaintext (pos + 1)).toNat
      if byteAt plaintext pos = frameUnreliableData ∧ pos + 1 + 3 ≤ plaintext.length then
        let msgLen := u16At plaintext (pos + 1 + 1)
        if plaintext.length < pos + 1 + 3 + msgLen ∨ n ≤ ch then none
        else some (.unreliableData ch (bytesAt plaintext (pos + 1 + 3) msgLen),
          plaintext.drop (pos + 1 + 3 + msgLen))
      else if byteAt plaintext pos = frameReliableData ∧ pos + 1 + 5 ≤ plaintext.length then
        let msgLen := u16At plaintext (pos + 1 + 3)
        if plaintext.length < pos + 1 + 5 + msgLen ∨ n ≤ ch then none
        else some (.reliableData ch (u16At plaintext (pos + 1 + 1))
          (bytesAt plaintext (pos + 1 + 5) msgLen), plaintext.drop (pos + 1 + 5 + msgLen))
      else if byteAt plaintext pos = frameFragmentData ∧ pos + 1 + 5 ≤ plaintext.length then
        if plaintext.length - (pos + 1 + 5) = 0 then none
        else some (.fragmentData ch (u16At plaintext (pos + 1 + 1))
          (byteAt plaintext (pos + 1 + 3)).toNat (byteAt plaintext (pos + 1 + 4)).toNat
          (bytesAt plaintext (pos + 1 + 5) (plaintext.length - (pos + 1 + 5))), [])
      else if byteAt plaintext pos = frameDisconnect then some (.disconnect ch, [])
      else none := by
  have hlen : ∀ k, k ≤ plaintext.length - (pos + 1) ↔ pos + 1 + k ≤ plaintext.length := by
    intro k
    omega
  have hrest : plaintext.drop (pos + 1 + 5) =
      bytesAt plaintext (pos + 1 + 5) (plaintext.length - (pos + 1 + 5)) := by
    rw [bytesAt, ← List.length_drop, List.take_length]
  have hshort : ∀ {k len : Nat}, pos + 1 + k ≤ plaintext.length →
      (plaintext.length - (pos + 1 + k) < len ↔ plaintext.length < pos + 1 + k + len) := by
    intro k len hk
    omega
  rw [drop_eq_byteAt_cons h]
  simp only [readFrame, getD_drop, List.drop_drop, List.length_drop, Nat.add_zero, hlen]
  by_cases hun : byteAt plaintext pos = frameUnreliableData ∧ pos + 1 + 3 ≤ plaintext.length
  · rw [if_pos hun, if_pos hun]
    exact if_congr (or_congr_left (hshort hun.2)) rfl rfl
  rw [if_neg hun, if_neg hun]
  by_cases hre : byteAt plaintext pos = frameReliableData ∧ pos + 1 + 5 ≤ plaintext.length
  · rw [if_pos hre, if_pos hre]
    exact if_congr (or_congr_left (hshort hre.2)) rfl rfl
  rw [if_neg hre, if_neg hre, hrest]
  rfl

theorem serverFrameRound_follows (now : Time) (plaintext : Bytes) :
    RoundFollows now plaintext readFrame 2 id
      (serverFrameRound now plaintext :
        Nat → Connection Key → List FrameAction × Round (Connection Key)) := by
  intro pos c hpos
  rw [readFrame_at _ hpos]
  simp only [serverFrameRound]
  by_cases hun : byteAt plaintext pos = frameUnreliableData ∧ pos + 1 + 3 ≤ plaintext.length
  · simp only [if_pos hun]
    split
    · exact ⟨[(pos, 1), (pos + 1, 1), (pos + 1 + 1, 2)], pos + 1 + 3, ⟨rfl, rfl, rfl, rfl⟩, hun.2,
        Or.inl ⟨rfl, rfl⟩⟩
    · refine ⟨[(pos, 1), (pos + 1, 1), (pos + 1 + 1, 2), (pos + 1 + 3, _)], _,
        ⟨rfl, rfl, rfl, rfl, rfl⟩, by omega, Or.inr (Or.inr ⟨_, ?_, ?_, rfl, rfl⟩)⟩
      · exact fun reason h => Frame.noConfusion h
      · omega
  simp only [if_neg hun]
  by_cases hre : byteAt plaintext pos = frameReliableData ∧ pos + 1 + 5 ≤ plaintext.length
  · simp only [if_pos hre]
    split
    · exact ⟨[(pos, 1), (pos + 1, 1), (pos + 1 + 1, 2), (pos + 1 + 3, 2)], pos + 1 + 5,
        ⟨rfl, rfl, rfl, rfl, rfl⟩, hre.2, Or.inl ⟨rfl, rfl⟩⟩
    · refine ⟨[(pos, 1), (pos + 1, 1), (pos + 1 + 1, 2), (pos + 1 + 3, 2), (pos + 1 + 5, _)], _,
        ⟨rfl, rfl, rfl, rfl, rfl, rfl⟩, by omega, Or.inr (Or.inr ⟨_, ?_, ?_, rfl, rfl⟩)⟩
      · exact fun reason h => Frame.noConfusion h
      · omega
  simp only [if_neg hre]
  by_cases hfr : byteAt plaintext pos = frameFragmentData ∧ pos + 1 + 5 ≤ plaintext.length
  · simp only [if_pos hfr]
    split
    · exact ⟨[(pos, 1), (pos + 1, 1), (pos + 1 + 1, 2), (pos + 1 + 3, 1), (pos + 1 + 4, 1)],
        pos + 1 + 5, ⟨rfl, rfl, rfl, rfl, rfl, rfl⟩, hfr.2, Or.inl ⟨rfl, rfl⟩⟩
    · refine ⟨[(pos, 1), (pos + 1, 1), (pos + 1 + 1, 2), (pos + 1 + 3, 1), (pos + 1 + 4, 1),
        (pos + 1 + 5, plaintext.length - (pos + 1 + 5))], plaintext.length,
        ⟨rfl, rfl, rfl, rfl, rfl, rfl, ?_⟩, Nat.le_refl _,
        Or.inr (Or.inr ⟨.fragmentData _ _ _ _ _, ?_, hpos, ?_, rfl⟩)⟩
      · show pos + 1 + 5 + (plaintext.length - (pos + 1 + 5)) = plaintext.length
        omega
      · exact fun reason h => Frame.noConfusion h
      · rw [List.drop_length]
  simp only [if_neg hfr]
  by_cases hdis : byteAt plaintext pos = frameDisconnect
  · simp only [if_pos hdis]
    by_cases hreason : pos + 1 < plaintext.length
    · rw [if_pos hreason]
      exact ⟨[(pos, 1), (pos + 1, 1)], pos + 1 + 1, ⟨rfl, rfl, rfl⟩, hreason,
        Or.inr (Or.inl ⟨_, rfl, by omega, rfl⟩)⟩
    · -- Past the end the reason is taken for zero.
      have hzero : (byteAt plaintext (pos + 1)).toNat = 0 := by
        rw [byteAt, List.getD_eq_default _ _ (by omega)]
        rfl
      rw [if_neg hreason, hzero]
      exact ⟨[(pos, 1)], pos + 1, ⟨rfl, rfl⟩, hpos, Or.inr (Or.inl ⟨_, rfl, by omega, rfl⟩)⟩
  · simp only [if_neg hdis]
    exact ⟨[(pos, 1)], pos + 1, ⟨rfl, rfl⟩, hpos, Or.inl ⟨trivial, rfl⟩⟩

/-- What the client makes of a frame the server reads: it knows no fragments, and reads no
reason. -/
def forClient : Frame × Bytes → Option (Frame × Bytes)
  | (.fragmentData .., _) => none
  | (.disconnect _, rest) => some (.disconnect 0, rest)
  | (.unreliableData ch data, rest) => some (.unreliableData ch data, rest)
  | (.reliableData ch msgSeq data, rest) => some (.reliableData ch msgSeq data, rest)

theorem clientReadFrame_eq (n : Nat) (bytes : Bytes) :
    clientReadFrame n bytes = (readFrame n bytes).bind forClient := by
  have hbind := fun (p : Prop) [Decidable p] =>
    apply_ite (fun result : Option (Frame × Bytes) => result.bind forClient) p
  cases bytes with
  | nil => rfl
  | cons frameType rest =>
    simp only [clientReadFrame, readFrame]
    by_cases hun : frameType = frameUnreliableData ∧ 3 ≤ rest.length
    · rw [if_pos hun, if_pos hun, hbind]
      rfl
    rw [if_neg hun, if_neg hun]
    by_cases hre : frameType = frameReliableData ∧ 5 ≤ rest.length
    · rw [if_pos hre, if_pos hre, hbind]
      rfl
    rw [if_neg hre, if_neg hre]
    by_cases hfr : frameType = frameFragmentData ∧ 5 ≤ rest.length
    · have hdis : frameType ≠ frameDisconnect := by
        rw [hfr.1]
        decide
      rw [if_pos hfr, if_neg hdis, hbind]
      exact (ite_self none).symm
    rw [if_neg hfr]
    by_cases hdis : frameType = frameDisconnect
    · rw [if_pos hdis, if_pos hdis]
      rfl
    · rw [if_neg hdis, if_neg hdis]
      rfl

theorem clientOnReliableData_eq (c : Connection Key) (ch msgSeq : Nat) (data : Bytes) :
    clientOnReliableData c ch msgSeq data = c.onReliableData ch msgSeq data := by
  unfold clientOnReliableData Connection.onReliableData
  cases (c.ch ch).config.type with
  | reliableOrdered => rfl
  | reliableUnordered =>
    cases (c.rs ch).isReceivedUnordered msgSeq with
    | true => rfl
    | false => rfl
  | unreliable => rfl
  | unreliableSequenced => rfl

/-- It does not matter whether messages are counted before or after they are pushed. -/
theorem foldl_deliver_books (msgs : List DeliveredMessage) (count : Bookkeeping → Bookkeeping) :
    ∀ c : Connection Key, msgs.foldl Connection.deliver { c with books := count c.books } =
      { msgs.foldl Connection.deliver c with
        books := count (msgs.foldl Connection.deliver c).books } := by
  induction msgs with
  | nil => exact fun c => rfl
  | cons msg rest ih => exact fun c => ih (c.deliver msg)

theorem clientFrameRound_follows (now : Time) (plaintext : Bytes) :
    RoundFollows now plaintext clientReadFrame 1 (fun c => { c with active := false })
      (clientFrameRound plaintext :
        Nat → Connection Key → List FrameAction × Round (Connection Key)) := by
  intro pos c hpos
  rw [clientReadFrame_eq, readFrame_at _ hpos]
  simp only [clientFrameRound, clientOnReliableData_eq]
  by_cases hun : byteAt plaintext pos = frameUnreliableData ∧ pos + 1 + 3 ≤ plaintext.length
  · simp only [if_pos hun]
    split
    · exact ⟨[(pos, 1), (pos + 1, 1), (pos + 1 + 1, 2)], pos + 1 + 3, ⟨rfl, rfl, rfl, rfl⟩, hun.2,
        Or.inl ⟨rfl, rfl⟩⟩
    · refine ⟨[(pos, 1), (pos + 1, 1), (pos + 1 + 1, 2), (pos + 1 + 3, _)], _,
        ⟨rfl, rfl, rfl, rfl, rfl⟩, by omega, Or.inr (Or.inr ⟨_, ?_, ?_, rfl, rfl⟩)⟩
      · exact fun reason h => Frame.noConfusion h
      · omega
  simp only [if_neg hun]
  by_cases hre : byteAt plaintext pos = frameReliableData ∧ pos + 1 + 5 ≤ plaintext.length
  · simp only [if_pos hre]
    split
    · exact ⟨[(pos, 1), (pos + 1, 1), (pos + 1 + 1, 2), (pos + 1 + 3, 2)], pos + 1 + 5,
        ⟨rfl, rfl, rfl, rfl, rfl⟩, hre.2, Or.inl ⟨rfl, rfl⟩⟩
    · refine ⟨[(pos, 1), (pos + 1, 1), (pos + 1 + 1, 2), (pos + 1 + 3, 2), (pos + 1 + 5, _)], _,
        ⟨rfl, rfl, rfl, rfl, rfl, rfl⟩, by omega,
        Or.inr (Or.inr ⟨.reliableData _ _ _, ?_, ?_, rfl, ?_⟩)⟩
      · exact fun reason h => Frame.noConfusion h
      · omega
      · exact congrArg (fun c => (_, Round.next _ c)) (foldl_deliver_books _
          (fun b => b.messagesReceived _) _).symm
  simp only [if_neg hre]
  by_cases hdis : byteAt plaintext pos = frameDisconnect
  · have hfr : ¬ (byteAt plaintext pos = frameFragmentData ∧ pos + 1 + 5 ≤ plaintext.length) := by
      rw [hdis]
      exact fun h => absurd h.1 (by decide)
    simp only [if_pos hdis, if_neg hfr]
    exact ⟨[(pos, 1)], pos + 1, ⟨rfl, rfl⟩, hpos, Or.inr (Or.inl ⟨_, rfl, by omega, rfl⟩)⟩
  · simp only [if_neg hdis]
    refine ⟨[(pos, 1)], pos + 1, ⟨rfl, rfl⟩, hpos, Or.inl ⟨?_, rfl⟩⟩
    by_cases hfr : byteAt plaintext pos = frameFragmentData ∧ pos + 1 + 5 ≤ plaintext.length
    · rw [if_pos hfr, apply_ite (fun result : Option (Frame × Bytes) => result.bind forClient)]
      exact ite_self none
    · rw [if_neg hfr]
      rfl

/-! ### The loop -/

/-- The frames `read` finds one after another. -/
def walkFrames (read : Bytes → Option (Frame × Bytes)) : Nat → Bytes → List Frame
  | 0, _ => []
  | fuel + 1, bytes =>
    match read bytes with
    | none => []
    | some (frame, rest) => frame :: walkFrames read fuel rest

/-- Whatever takes the frames one after another in this way finds the same ones. -/
theorem walkFrames_unique {read : Bytes → Option (Frame × Bytes)}
    {found : Nat → Bytes → List Frame} (hzero : ∀ bytes, found 0 bytes = [])
    (hnone : ∀ fuel bytes, read bytes = none → found (fuel + 1) bytes = [])
    (hsome : ∀ fuel bytes frame rest, read bytes = some (frame, rest) →
      found (fuel + 1) bytes = frame :: found fuel rest) :
    ∀ (fuel : Nat) (bytes : Bytes), walkFrames read fuel bytes = found fuel bytes := by
  intro fuel
  induction fuel with
  | zero => exact fun bytes => (hzero bytes).symm
  | succ fuel ih =>
    intro bytes
    rw [walkFrames]
    cases hread : read bytes with
    | none => exact (hnone fuel bytes hread).symm
    | some result =>
      rw [hsome fuel bytes result.1 result.2 hread, ← ih result.2]

theorem walkFrames_readFrame (n : Nat) :
    ∀ (fuel : Nat) (bytes : Bytes),
      walkFrames (readFrame n) fuel bytes = readFrames n fuel bytes := by
  refine walkFrames_unique (fun _ => rfl) ?_ ?_
  · intro fuel bytes hread
    rw [readFrames, hread]
  · intro fuel bytes frame rest hread
    rw [readFrames, hread]

theorem walkFrames_clientReadFrame (n : Nat) :
    ∀ (fuel : Nat) (bytes : Bytes),
      walkFrames (clientReadFrame n) fuel bytes = clientReadFrames n fuel bytes := by
  refine walkFrames_unique (fun _ => rfl) ?_ ?_
  · intro fuel bytes hread
    rw [clientReadFrames, hread]
  · intro fuel bytes frame rest hread
    rw [clientReadFrames, hread]

/-- The loop has walked over the plaintext from the position on: it has met the frames
that are there and done with them what there is to do. -/
structure Walked (now : Time) (plaintext : Bytes)
    (read : Nat → Bytes → Option (Frame × Bytes)) (onQuit : Connection Key → Connection Key)
    (pos : Nat) (c : Connection Key) (out : Scanned FrameAction (Connection Key)) : Prop where
  met : ∀ fuel, plaintext.length ≤ pos + fuel →
    walkFrames (read c.numChannels) fuel (plaintext.drop pos) = frames out.actions
  quit : out.quit = (c.applyFrames now (frames out.actions)).2
  state : out.state =
    if out.quit then onQuit (c.applyFrames now (frames out.actions)).1
    else (c.applyFrames now (frames out.actions)).1
  pushed : messages out.actions = c.releases now (frames out.actions)
  copied : copies out.actions = (messages out.actions).map fun msg => msg.data.length
  read : ∃ stop, Tiles pos (reads out.actions) stop ∧ stop ≤ max pos plaintext.length

theorem applyFrame_numChannels (now : Time) (c : Connection Key) (frame : Frame) :
    (c.applyFrame now frame).numChannels = c.numChannels := by
  rw [applyFrame_cdata]

section Walk

variable {now : Time} {plaintext : Bytes} {read : Nat → Bytes → Option (Frame × Bytes)}
  {onQuit : Connection Key → Connection Key} {pos stop : Nat} {c : Connection Key}
  {rs : List (Nat × Nat)}

theorem walkFrames_of_none {read : Bytes → Option (Frame × Bytes)} {bytes : Bytes}
    (h : read bytes = none) (fuel : Nat) : walkFrames read fuel bytes = [] := by
  cases fuel with
  | zero => rfl
  | succ fuel => rw [walkFrames, h]

theorem walked_last {last : Option Frame} {state : Connection Key} {quit : Bool}
    (hmet : ∀ fuel, plaintext.length ≤ pos + fuel →
      walkFrames (read c.numChannels) fuel (plaintext.drop pos) = last.toList)
    (htiles : Tiles pos rs stop) (hle : stop ≤ plaintext.length)
    (hquit : quit = (c.applyFrames now last.toList).2)
    (hstate : state = if quit then onQuit (c.applyFrames now last.toList).1
      else (c.applyFrames now last.toList).1)
    (hpushed : c.releases now last.toList = []) :
    Walked now plaintext read onQuit pos c ⟨ofRound rs last [], state, quit⟩ where
  met fuel hfuel := by
    rw [frames_ofRound]
    exact hmet fuel hfuel
  quit := by
    rw [frames_ofRound]
    exact hquit
  state := by
    rw [frames_ofRound]
    exact hstate
  pushed := by rw [frames_ofRound, messages_ofRound, hpushed]
  copied := by rw [copies_ofRound, messages_ofRound]
  read := ⟨stop, by rwa [reads_ofRound], by omega⟩

theorem walked_next {frame : Frame} (hne : ∀ reason, frame ≠ .disconnect reason)
    (htiles : Tiles pos rs stop) (hlt : pos < stop) (hle : stop ≤ plaintext.length)
    (hread : read c.numChannels (plaintext.drop pos) = some (frame, plaintext.drop stop))
    {rest : Scanned FrameAction (Connection Key)}
    (hrest : Walked now plaintext read onQuit stop (c.applyFrame now frame) rest) :
    Walked now plaintext read onQuit pos c
      ⟨ofRound rs (some frame) (c.onFrame now frame).1 ++ rest.actions, rest.state, rest.quit⟩ := by
  have hframes : frames (ofRound rs (some frame) (c.onFrame now frame).1 ++ rest.actions) =
      frame :: frames rest.actions := by
    rw [frames_append, frames_ofRound]
    rfl
  have hmessages : messages (ofRound rs (some frame) (c.onFrame now frame).1 ++ rest.actions) =
      (c.onFrame now frame).1 ++ messages rest.actions := by
    rw [messages_append, messages_ofRound]
  obtain ⟨happly, hreleases⟩ := applyFrames_cons now c hne (frames rest.actions)
  obtain ⟨stop', htiles', hle'⟩ := hrest.read
  refine ⟨?_, ?_, ?_, ?_, ?_, stop', ?_, by omega⟩
  · intro fuel hfuel
    obtain ⟨fuel', rfl⟩ : ∃ fuel', fuel = fuel' + 1 := ⟨fuel - 1, by omega⟩
    have hmet := hrest.met fuel' (by omega)
    rw [applyFrame_numChannels] at hmet
    rw [walkFrames, hread, hframes]
    exact congrArg (frame :: ·) hmet
  · rw [hframes, happly]
    exact hrest.quit
  · rw [hframes, happly]
    exact hrest.state
  · rw [hframes, hmessages, hreleases, hrest.pushed]
  · rw [hmessages, List.map_append, ← hrest.copied, copies_append, copies_ofRound]
  · rw [reads_append, reads_ofRound]
    exact tiles_append htiles htiles'

/-- **A loop whose rounds follow `read` walks over what `read` finds.** -/
theorem scan_walked {quitLen : Nat}
    {round : Nat → Connection Key → List FrameAction × Round (Connection Key)}
    (hnil : ∀ n, read n [] = none)
    (hround : RoundFollows now plaintext read quitLen onQuit round) :
    ∀ (fuel pos : Nat) (c : Connection Key), plaintext.length ≤ pos + fuel →
      Walked now plaintext read onQuit pos c (scan plaintext.length round fuel pos c) := by
  refine scan_rule _ ?_ ?_
  · intro pos c hend
    refine ⟨?_, rfl, rfl, rfl, rfl, pos, rfl, Nat.le_max_left _ _⟩
    intro fuel _
    rw [List.drop_eq_nil_of_le hend]
    exact walkFrames_of_none (hnil _) fuel
  · intro pos c hpos
    obtain ⟨rs, stop, htiles, hle, ⟨hread, heq⟩ | ⟨reason, hread, -, heq⟩ |
      ⟨frame, hne, hlt, hread, heq⟩⟩ := hround pos c hpos
    · refine Or.inl ⟨_, _, heq, walked_last ?_ htiles hle rfl rfl rfl⟩
      intro fuel _
      exact walkFrames_of_none hread fuel
    · refine Or.inr (Or.inl ⟨_, _, heq, walked_last ?_ htiles hle rfl rfl rfl⟩)
      intro fuel hfuel
      obtain ⟨fuel', rfl⟩ : ∃ fuel', fuel = fuel' + 1 := ⟨fuel - 1, by omega⟩
      rw [walkFrames, hread]
      exact congrArg (_ :: ·) (walkFrames_of_none (hnil _) fuel')
    · refine Or.inr (Or.inr ⟨_, _, _, heq, hlt, ?_⟩)
      intro rest hrest
      exact walked_next hne htiles hlt hle hread hrest

end Walk

theorem serverFrameLoop_walked (now : Time) (c : Connection Key) (plaintext : Bytes) :
    Walked now plaintext readFrame id 8 c (serverFrameLoop now c plaintext) :=
  scan_walked (fun _ => rfl) (serverFrameRound_follows now plaintext) _ _ _
    (Nat.le_add_left _ _)

theorem clientFrameLoop_walked (now : Time) (c : Connection Key) (plaintext : Bytes) :
    Walked now plaintext clientReadFrame (fun c => { c with active := false }) 8 c
      (clientFrameLoop c plaintext) :=
  scan_walked (fun _ => rfl) (clientFrameRound_follows now plaintext) _ _ _
    (Nat.le_add_left _ _)

theorem serverFrameLoop_frames (now : Time) (c : Connection Key) (plaintext : Bytes) :
    frames (serverFrameLoop now c plaintext).actions = payloadFrames c.numChannels plaintext := by
  rw [payloadFrames, ← walkFrames_readFrame]
  exact ((serverFrameLoop_walked now c plaintext).met _ (Nat.le_add_left _ _)).symm

theorem clientFrameLoop_frames (c : Connection Key) (plaintext : Bytes) :
    frames (clientFrameLoop c plaintext).actions =
      clientPayloadFrames c.numChannels plaintext := by
  rw [clientPayloadFrames, ← walkFrames_clientReadFrame]
  exact ((clientFrameLoop_walked 0 c plaintext).met _ (Nat.le_add_left _ _)).symm

end Netudp
