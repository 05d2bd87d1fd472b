/-
What the sender of reliable messages keeps.

Message `j` of a channel has sequence number `j % 2 ^ 16` and sits in slot `j % 64`.
Message `j + 64` takes that slot over whatever has become of `j`, so a message that is
neither acknowledged nor dropped is kept as long as it is not 64 messages back, and a
caller that records a message only when the one 64 before it is done with never loses
one.
-/
import Netudp.Proofs.Reassembly

namespace Netudp

open Lib

/-! ### The system -/

/-- A sending channel, the messages recorded so far, message `j` at position `j`, and
which of them have been acknowledged and which dropped. -/
structure ReliableSender where
  state : ReliableChannelState
  sent : List Bytes
  acked : List Nat
  dropped : List Nat

namespace ReliableSender

def start : ReliableSender := ⟨.reset, [], [], []⟩

/-- The message that has sequence number `seq` now: the last one recorded under it. -/
def current (s : ReliableSender) (seq : Nat) : List Nat :=
  (List.range s.sent.length).filter fun j => j % u16Size = seq ∧ s.sent.length ≤ j + u16Size

end ReliableSender

/-- The calls on the sending side.  `resent` is what a caller writes through the pointer
`get_for_retransmit` returns when it has sent a message again. -/
inductive SenderEvent where
  | recordSend (data : Bytes) (packetSeq : Nat) (time : Time)
  | markAcked (msgSeq : Nat)
  | findRetransmits (now rto : Time) (maxCount : Nat)
  | resent (msgSeq packetSeq retryCount : Nat) (time : Time)

/-- The state after a caller has noted that it sent message `msgSeq` again. -/
def noteResent (st : ReliableChannelState) (msgSeq packetSeq retryCount : Nat) (time : Time) :
    ReliableChannelState :=
  match st.getForRetransmit msgSeq with
  | none => st
  | some msg =>
    { st with
      sentBuffer := st.sentBuffer.set msgSeq
        { msg with packetSequence := packetSeq, retryCount := retryCount, sendTime := time } }

/-- One call on the sending side. -/
def senderStep (s : ReliableSender) : SenderEvent → ReliableSender
  | .recordSend data packetSeq time =>
    match s.state.recordSend data packetSeq time with
    | (false, st) => { s with state := st }
    | (true, st) => { s with state := st, sent := s.sent ++ [data] }
  | .markAcked msgSeq =>
    { s with state := s.state.markAcked msgSeq, acked := s.acked ++ s.current msgSeq }
  | .findRetransmits now rto maxCount =>
    let r := s.state.findRetransmits now rto maxCount
    { s with state := r.state, dropped := s.dropped ++ r.dropped.flatMap s.current }
  | .resent msgSeq packetSeq retryCount time =>
    { s with state := noteResent s.state msgSeq packetSeq retryCount time }

/-- A message is recorded only when the one 64 before it is no longer kept for
retransmission. -/
def RecordsIntoDone (s : ReliableSender) : SenderEvent → Prop
  | .recordSend _ _ _ =>
    s.state.getForRetransmit ((s.state.sendSeq + u16Size - reliableBufferSize) % u16Size) = none
  | _ => True

instance (s : ReliableSender) (e) : Decidable (RecordsIntoDone s e) := by
  cases e <;> dsimp only [RecordsIntoDone] <;> infer_instance

/-! ### Messages and their numbers -/

theorem ReliableSender.mem_current {s : ReliableSender} {seq j : Nat} :
    j ∈ s.current seq ↔
      j < s.sent.length ∧ j % u16Size = seq ∧ s.sent.length ≤ j + u16Size := by
  simp [ReliableSender.current]

/-- Only one message has a given number at a time. -/
theorem ReliableSender.current_eq {s : ReliableSender} {j : Nat} (hlt : j < s.sent.length)
    (hnear : s.sent.length ≤ j + u16Size) : s.current (j % u16Size) = [j] := by
  have hmem : j ∈ s.current (j % u16Size) := ReliableSender.mem_current.mpr ⟨hlt, rfl, hnear⟩
  have hnodup : (s.current (j % u16Size)).Nodup := List.nodup_range.filter _
  refine List.perm_singleton.mp ((List.perm_ext_iff_of_nodup hnodup (List.nodup_singleton j)).mpr ?_)
  intro i
  rw [List.mem_singleton]
  constructor
  · intro hi
    obtain ⟨hilt, hmod, hinear⟩ := ReliableSender.mem_current.mp hi
    rcases eq_or_far_of_mod_eq hmod with heq | hfar | hfar
    · exact heq
    · omega
    · omega
  · rintro rfl
    exact hmem

/-! ### What is kept -/

/-- The slot holds message `j`, waiting for its acknowledgement. -/
structure Waiting (msg : SentMessage) (j : Nat) (data : Bytes) : Prop where
  valid : msg.valid = true
  acked : msg.acked = false
  sequence : msg.sequence = j % u16Size
  data : msg.data = data

/-- The sender's invariant. -/
structure Retains (s : ReliableSender) : Prop where
  next : s.state.sendSeq = s.sent.length % u16Size
  /-- A slot in use belongs to one of the last 64 messages. -/
  slot : ∀ k, (s.state.sentBuffer.get k).valid = true → ∃ j, j < s.sent.length ∧
    s.sent.length ≤ j + 64 ∧ j % 64 = k % 64 ∧ (s.state.sentBuffer.get k).sequence = j % u16Size
  /-- A message neither acknowledged nor dropped is among them, and in its slot. -/
  kept : ∀ j data, s.sent[j]? = some data → j ∉ s.acked → j ∉ s.dropped →
    s.sent.length ≤ j + 64 ∧ Waiting (s.state.sentBuffer.get j) j data
  counted : s.state.messagesDropped = s.dropped.length % u32Size

theorem retains_start : Retains .start where
  next := rfl
  slot := by
    intro k hk
    exact absurd hk Bool.false_ne_true
  kept := by
    intro j data hj
    exact absurd hj (by simp [ReliableSender.start])
  counted := rfl

variable {s : ReliableSender}

theorem getForRetransmit_waiting {st : ReliableChannelState} {j : Nat} {data : Bytes}
    (h : Waiting (st.sentBuffer.get j) j data) :
    st.getForRetransmit (j % u16Size) = some (st.sentBuffer.get j) := by
  have hget : st.sentBuffer.get (j % u16Size) = st.sentBuffer.get j :=
    Table.get_congr _ (mod_u16Size_mod j)
  simp only [ReliableChannelState.getForRetransmit, hget]
  rw [if_pos ⟨h.valid, h.sequence, h.acked⟩]

/-! ### Recording -/

/-- The slot about to be written holds no message that is still waiting. -/
theorem Retains.not_waiting (h : Retains s)
    (hdone : s.state.getForRetransmit ((s.state.sendSeq + u16Size - reliableBufferSize) % u16Size)
      = none) {j : Nat} {data : Bytes} (hj : j + 64 = s.sent.length) :
    ¬ Waiting (s.state.sentBuffer.get j) j data := by
  intro hw
  have hnum : (s.state.sendSeq + u16Size - reliableBufferSize) % u16Size = j % u16Size := by
    rw [h.next, ← hj]
    unfold u16Size reliableBufferSize
    omega
  rw [hnum, getForRetransmit_waiting hw] at hdone
  exact absurd hdone (Option.some_ne_none _)

theorem Retains.recordSend (h : Retains s) {data : Bytes} {packetSeq : Nat} {time : Time}
    (hdone : RecordsIntoDone s (.recordSend data packetSeq time)) :
    Retains (senderStep s (.recordSend data packetSeq time)) := by
  simp only [senderStep, ReliableChannelState.recordSend]
  by_cases hlen : data.length = 0 ∨ mtu < data.length
  · rw [if_pos hlen]
    exact ⟨h.next, h.slot, h.kept, h.counted⟩
  rw [if_neg hlen]
  have hcell : s.state.sendSeq % 64 = s.sent.length % 64 := by rw [h.next, mod_u16Size_mod]
  refine ⟨?_, ?_, ?_, h.counted⟩
  · show (s.state.sendSeq + 1) % u16Size = (s.sent ++ [data]).length % u16Size
    rw [h.next, Nat.mod_add_mod, List.length_append, List.length_singleton]
  · intro k hk
    simp only [Table.get_set, List.length_append, List.length_singleton, hcell] at hk ⊢
    by_cases hsame : k % 64 = s.sent.length % 64
    · rw [if_pos hsame]
      exact ⟨s.sent.length, by omega, by omega, hsame.symm, h.next⟩
    · rw [if_neg hsame] at hk ⊢
      obtain ⟨j, hlt, hnear, hmod, hseq⟩ := h.slot k hk
      exact ⟨j, by omega, by omega, hmod, hseq⟩
  · intro j msg hj hacked hdropped
    simp only [Table.get_set, List.length_append, List.length_singleton, hcell]
    rcases Nat.lt_trichotomy j s.sent.length with hlt | heq | hgt
    · rw [List.getElem?_append_left hlt] at hj
      obtain ⟨hnear, hw⟩ := h.kept j msg hj hacked hdropped
      have hback : j + 64 ≠ s.sent.length := fun hback => h.not_waiting hdone hback hw
      rw [if_neg (by omega)]
      exact ⟨by omega, hw⟩
    · subst heq
      rw [List.getElem?_concat_length, Option.some.injEq] at hj
      rw [if_pos rfl, ← hj]
      exact ⟨by omega, rfl, rfl, h.next, rfl⟩
    · rw [List.getElem?_eq_none (by simp; omega)] at hj
      exact absurd hj.symm (Option.some_ne_none _)

/-! ### Acknowledging -/

/-- Slots are only given up, and only those of acknowledged messages. -/
structure Retires (st st' : ReliableChannelState) : Prop where
  sendSeq : st'.sendSeq = st.sendSeq
  dropped : st'.messagesDropped = st.messagesDropped
  slot : ∀ k, st'.sentBuffer.get k = st.sentBuffer.get k ∨
    (st.sentBuffer.get k).acked = true ∧
      st'.sentBuffer.get k = { st.sentBuffer.get k with valid := false }

theorem Retires.refl (st : ReliableChannelState) : Retires st st :=
  ⟨rfl, rfl, fun _ => Or.inl rfl⟩

theorem Retires.trans {st st' st'' : ReliableChannelState} (h : Retires st st')
    (h' : Retires st' st'') : Retires st st'' := by
  refine ⟨h'.sendSeq.trans h.sendSeq, h'.dropped.trans h.dropped, ?_⟩
  intro k
  rcases h.slot k with heq | ⟨hacked, heq⟩ <;> rcases h'.slot k with heq' | ⟨hacked', heq'⟩
  · exact Or.inl (heq'.trans heq)
  · exact Or.inr ⟨by rw [← heq]; exact hacked', by rw [heq', heq]⟩
  · exact Or.inr ⟨hacked, heq'.trans heq⟩
  · exact Or.inr ⟨hacked, by rw [heq', heq]⟩

/-- The loop of `mark_acked` gives up the slots of acknowledged messages only. -/
theorem advanceOldest_retires : ∀ (fuel : Nat) (st : ReliableChannelState),
    Retires st (st.advanceOldest fuel) := by
  intro fuel
  induction fuel with
  | zero => exact fun st => .refl st
  | succ fuel ih =>
    intro st
    simp only [ReliableChannelState.advanceOldest]
    split
    · exact .refl st
    · rename_i hgo
      refine Retires.trans ?_ (ih _)
      refine ⟨rfl, rfl, ?_⟩
      intro k
      rw [Table.get_set]
      by_cases hsame : k % 64 = st.oldestUnacked % 64
      · rw [if_pos hsame, Table.get_congr _ hsame]
        exact Or.inr ⟨by simpa using fun h => hgo (Or.inr (Or.inl h)), rfl⟩
      · rw [if_neg hsame]
        exact Or.inl rfl

theorem Retains.retires (h : Retains s) {st : ReliableChannelState} (hst : Retires s.state st) :
    Retains { s with state := st } := by
  refine ⟨hst.sendSeq.trans h.next, ?_, ?_, hst.dropped.trans h.counted⟩
  · intro k hk
    rcases hst.slot k with heq | ⟨-, heq⟩
    · simp only [heq] at hk ⊢
      exact h.slot k hk
    · simp only [heq] at hk
      exact absurd hk Bool.false_ne_true
  · intro j data hj hacked hdropped
    obtain ⟨hnear, hw⟩ := h.kept j data hj hacked hdropped
    rcases hst.slot j with heq | ⟨hold, -⟩
    · simp only [heq]
      exact ⟨hnear, hw⟩
    · rw [hw.acked] at hold
      exact absurd hold Bool.false_ne_true

/-- A waiting message whose number is not `seq` is not in the slot found under `seq`. -/
theorem slot_ne_of_not_current {seq j : Nat} {data : Bytes}
    (hj : s.sent[j]? = some data) (hnear : s.sent.length ≤ j + 64)
    (hw : Waiting (s.state.sentBuffer.get j) j data)
    (hseq : (s.state.sentBuffer.get seq).sequence = seq) (hnot : j ∉ s.current seq) :
    j % 64 ≠ seq % 64 := by
  intro hsame
  have hlt : j < s.sent.length := (List.getElem?_eq_some_iff.mp hj).1
  refine hnot (ReliableSender.mem_current.mpr ⟨hlt, ?_, ?_⟩)
  · rw [← hw.sequence, Table.get_congr _ hsame]
    exact hseq
  · unfold u16Size
    omega

theorem Retains.markAcked (h : Retains s) (msgSeq : Nat) :
    Retains (senderStep s (.markAcked msgSeq)) := by
  simp only [senderStep, ReliableChannelState.markAcked]
  have hmarked : ∀ st : ReliableChannelState,
      Retains { s with state := st, acked := s.acked ++ s.current msgSeq } →
      Retains { s with
        state := st.advanceOldest u16Size, acked := s.acked ++ s.current msgSeq } :=
    fun st hst => hst.retires (advanceOldest_retires u16Size st)
  apply hmarked
  by_cases hown : (s.state.sentBuffer.get msgSeq).valid = true ∧
      (s.state.sentBuffer.get msgSeq).sequence = msgSeq
  · rw [if_pos hown]
    refine ⟨h.next, ?_, ?_, h.counted⟩
    · intro k hk
      simp only [Table.get_set] at hk ⊢
      by_cases hsame : k % 64 = msgSeq % 64
      · rw [if_pos hsame]
        rw [← Table.get_congr s.state.sentBuffer hsame] at hown ⊢
        exact h.slot k hown.1
      · rw [if_neg hsame] at hk ⊢
        exact h.slot k hk
    · intro j data hj hacked hdropped
      have hnot : j ∉ s.acked ∧ j ∉ s.current msgSeq := by simpa using hacked
      obtain ⟨hnear, hw⟩ := h.kept j data hj hnot.1 hdropped
      rw [Table.get_set, if_neg (slot_ne_of_not_current (s := s) hj hnear hw hown.2 hnot.2)]
      exact ⟨hnear, hw⟩
  · rw [if_neg hown]
    refine ⟨h.next, h.slot, ?_, h.counted⟩
    intro j data hj hacked hdropped
    exact h.kept j data hj (fun hmem => hacked (List.mem_append_left _ hmem)) hdropped

/-! ### Dropping and sending again -/

/-- The sender with what a scan for retransmissions has done so far. -/
def ReliableSender.after (s : ReliableSender) (r : ReliableChannelState.Retransmits) :
    ReliableSender :=
  { s with state := r.state, dropped := s.dropped ++ r.dropped.flatMap s.current }

/-- It gives up the message in a slot, and with it the slot. -/
def ReliableSender.giveUp (s : ReliableSender) (seq : Nat) : ReliableSender :=
  { s with
    state := { s.state with
      sentBuffer := s.state.sentBuffer.set seq { s.state.sentBuffer.get seq with valid := false }
      messagesDropped := (s.state.messagesDropped + 1) % u32Size }
    dropped := s.dropped ++ s.current seq }

/-- **A scan keeps what is kept when a message is given up.** -/
theorem findRetransmits_rule {P : ReliableSender → Prop}
    (hgiveUp : ∀ {s : ReliableSender} {seq : Nat}, P s →
      (s.state.sentBuffer.get seq).valid = true → (s.state.sentBuffer.get seq).sequence = seq →
      (s.state.sentBuffer.get seq).acked = false → P (s.giveUp seq))
    (h : P s) (now rto : Time) (maxCount : Nat) :
    P (senderStep s (.findRetransmits now rto maxCount)) := by
  have hone : ∀ (seq : Nat) {r : ReliableChannelState.Retransmits}, P (s.after r) →
      P (s.after (ReliableChannelState.retransmitOne now rto r seq)) := by
    intro seq r h
    simp only [ReliableChannelState.retransmitOne]
    split
    · exact h
    · rename_i hown
      simp only [not_or, Bool.not_eq_false, not_not, Bool.not_eq_true] at hown
      split
      · split
        · have hdropped := hgiveUp h hown.1 hown.2.1 hown.2.2
          simp only [ReliableSender.after, List.flatMap_append, List.flatMap_singleton,
            ← List.append_assoc]
          exact hdropped
        · exact h
      · exact h
  have hloop : ∀ (fuel seq : Nat) {r : ReliableChannelState.Retransmits}, P (s.after r) →
      P (s.after (ReliableChannelState.retransmitLoop now rto maxCount fuel seq r)) := by
    intro fuel
    induction fuel with
    | zero => exact fun seq r h => h
    | succ fuel ih =>
      intro seq r h
      simp only [ReliableChannelState.retransmitLoop]
      split
      · exact h
      · exact ih _ (hone seq h)
  have hstart : P (s.after ⟨[], [], s.state⟩) := by
    simpa [ReliableSender.after] using h
  exact hloop u16Size s.state.oldestUnacked hstart

theorem Retains.drop (h : Retains s) {seq : Nat}
    (hvalid : (s.state.sentBuffer.get seq).valid = true)
    (hseq : (s.state.sentBuffer.get seq).sequence = seq) : Retains (s.giveUp seq) := by
  unfold ReliableSender.giveUp
  refine ⟨h.next, ?_, ?_, ?_⟩
  · intro k hk
    simp only [Table.get_set] at hk ⊢
    by_cases hsame : k % 64 = seq % 64
    · rw [if_pos hsame] at hk
      exact absurd hk Bool.false_ne_true
    · rw [if_neg hsame] at hk ⊢
      exact h.slot k hk
  · intro j data hj hacked hdropped
    have hnot : j ∉ s.dropped ∧ j ∉ s.current seq := by simpa using hdropped
    obtain ⟨hnear, hw⟩ := h.kept j data hj hacked hnot.1
    rw [Table.get_set, if_neg (slot_ne_of_not_current (s := s) hj hnear hw hseq hnot.2)]
    exact ⟨hnear, hw⟩
  · obtain ⟨j, hlt, hnear, -, hnum⟩ := h.slot seq hvalid
    have hcur : s.current seq = [j] := by
      rw [← hseq, hnum]
      exact ReliableSender.current_eq hlt (by unfold u16Size; omega)
    show (s.state.messagesDropped + 1) % u32Size = (s.dropped ++ s.current seq).length % u32Size
    rw [h.counted, hcur, List.length_append, List.length_singleton, Nat.mod_add_mod]

theorem Retains.findRetransmits (h : Retains s) (now rto : Time) (maxCount : Nat) :
    Retains (senderStep s (.findRetransmits now rto maxCount)) :=
  findRetransmits_rule (fun h hvalid hseq _ => h.drop hvalid hseq) h now rto maxCount

theorem Retains.resent (h : Retains s) (msgSeq packetSeq retryCount : Nat) (time : Time) :
    Retains (senderStep s (.resent msgSeq packetSeq retryCount time)) := by
  simp only [senderStep, noteResent, ReliableChannelState.getForRetransmit]
  split
  · exact h
  · rename_i msg hmsg
    split at hmsg
    · rw [Option.some.injEq] at hmsg
      subst hmsg
      refine ⟨h.next, ?_, ?_, h.counted⟩
      · intro k hk
        simp only [Table.get_set] at hk ⊢
        by_cases hsame : k % 64 = msgSeq % 64
        · rw [if_pos hsame, ← Table.get_congr s.state.sentBuffer hsame] at hk ⊢
          exact h.slot k hk
        · rw [if_neg hsame] at hk ⊢
          exact h.slot k hk
      · intro j data hj hacked hdropped
        obtain ⟨hnear, hw⟩ := h.kept j data hj hacked hdropped
        refine ⟨hnear, ?_⟩
        simp only [Table.get_set]
        by_cases hsame : j % 64 = msgSeq % 64
        · rw [if_pos hsame, ← Table.get_congr s.state.sentBuffer hsame]
          exact ⟨hw.valid, hw.acked, hw.sequence, hw.data⟩
        · rw [if_neg hsame]
          exact hw
    · exact absurd hmsg.symm (Option.some_ne_none _)

/-! ### Runs -/

theorem retains_step (s : ReliableSender) (e : SenderEvent) (h : Retains s)
    (hdone : RecordsIntoDone s e) : Retains (senderStep s e) := by
  cases e with
  | recordSend data packetSeq time => exact h.recordSend hdone
  | markAcked msgSeq => exact h.markAcked msgSeq
  | findRetransmits now rto maxCount => exact h.findRetransmits now rto maxCount
  | resent msgSeq packetSeq retryCount time => exact h.resent msgSeq packetSeq retryCount time

/-- **No unacknowledged message is lost** by a caller that records a message only when
the one 64 before it is done with: whatever is neither acknowledged nor dropped is
returned with the bytes it was recorded with, and every drop is counted. -/
theorem unacked_messages_retained (es : List SenderEvent)
    (h : Along senderStep RecordsIntoDone .start es) :
    (∀ j data, (run senderStep .start es).sent[j]? = some data →
      j ∉ (run senderStep .start es).acked → j ∉ (run senderStep .start es).dropped →
      ∃ msg, (run senderStep .start es).state.getForRetransmit (j % u16Size) = some msg ∧
        msg.data = data) ∧
    (run senderStep .start es).state.messagesDropped
      = (run senderStep .start es).dropped.length % u32Size := by
  have hr : Retains (run senderStep .start es) :=
    run_invariant Retains retains_step retains_start h
  refine ⟨?_, hr.counted⟩
  intro j data hj hacked hdropped
  obtain ⟨-, hw⟩ := hr.kept j data hj hacked hdropped
  exact ⟨_, getForRetransmit_waiting hw, hw.data⟩

/-- Three messages: the first is acknowledged, the second given up after ten retries. -/
def ackAndDrop : List SenderEvent :=
  [.recordSend [1] 0 0, .recordSend [2] 0 0, .recordSend [3] 1 0, .markAcked 0,
    .resent 1 5 10 4, .findRetransmits 50 1 16]

theorem unacked_messages_retained_third :
    Along senderStep RecordsIntoDone .start ackAndDrop ∧
    (run senderStep .start ackAndDrop).dropped = [1] ∧
    ∃ msg, (run senderStep .start ackAndDrop).state.getForRetransmit (2 % u16Size) = some msg ∧
      msg.data = [3] := by
  have h : Along senderStep RecordsIntoDone .start ackAndDrop := by decide +kernel
  exact ⟨h, by decide +kernel,
    (unacked_messages_retained ackAndDrop h).1 2 [3] (by decide +kernel) (by decide +kernel)
      (by decide +kernel)⟩

/-- 65 messages and no acknowledgement. -/
def sixtyFive : List SenderEvent :=
  (List.range 65).map fun i => .recordSend [UInt8.ofNat i] 0 0

/-- The sixty-fifth message has taken the slot of the first. -/
theorem first_message_lost :
    (run senderStep .start sixtyFive).sent[0]? = some [0] ∧
    0 ∉ (run senderStep .start sixtyFive).acked ∧
    0 ∉ (run senderStep .start sixtyFive).dropped ∧
    (run senderStep .start sixtyFive).state.oldestUnacked = 0 ∧
    ((run senderStep .start sixtyFive).state.getForRetransmit 0).isNone := by
  decide +kernel

end Netudp
