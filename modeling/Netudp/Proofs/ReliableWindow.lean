/-
The oldest message of the reliable window.

`mark_acked` moves `oldest_unacked` past the messages that are acknowledged and stops at
the first one that is not.  A message given up by `find_retransmits` is not acknowledged,
so it stops the loop like one that is still waiting, and nothing ever moves past it.  As
long as no more than 64 messages lie between the oldest and the next, each of them is in
its own slot (`InWindow`), and the oldest is the first that is neither acknowledged nor
given up unless one that was given up comes before all of these.
-/
import Netudp.Proofs.Retransmit

namespace Netudp

open Lib

/-! ### What the window should start at -/

/-- The first message that is neither acknowledged nor dropped, or the next one to send. -/
def ReliableSender.oldestOpen (s : ReliableSender) : Nat :=
  ((List.range s.sent.length).find? fun j => j ∉ s.acked ∧ j ∉ s.dropped).getD s.sent.length

/-- A message is recorded only with fewer than 64 outstanding. -/
def RecordsInWindow (s : ReliableSender) : SenderEvent → Prop
  | .recordSend _ _ _ => ahead u16Size s.state.oldestUnacked s.state.sendSeq < reliableBufferSize
  | _ => True

instance (s : ReliableSender) : ∀ e, Decidable (RecordsInWindow s e)
  | .recordSend _ _ _ => inferInstanceAs (Decidable (_ < _))
  | .markAcked _ | .findRetransmits _ _ _ | .resent _ _ _ _ => isTrue trivial

/-- No open message is among those before which all are done with. -/
theorem ReliableSender.le_oldestOpen {s : ReliableSender} {o : Nat} (hle : o ≤ s.sent.length)
    (hbefore : ∀ j < o, j ∈ s.acked ∨ j ∈ s.dropped) : o ≤ s.oldestOpen := by
  unfold oldestOpen
  cases hfind : (List.range s.sent.length).find? fun j => j ∉ s.acked ∧ j ∉ s.dropped with
  | none => exact hle
  | some k =>
    have hopen := List.find?_some hfind
    simp only [decide_eq_true_eq] at hopen
    rcases Nat.lt_or_ge k o with hlt | hge
    · rcases hbefore k hlt with hacked | hdropped
      · exact absurd hacked hopen.1
      · exact absurd hdropped hopen.2
    · exact hge

theorem ReliableSender.oldestOpen_le {s : ReliableSender} {o : Nat} (hlt : o < s.sent.length)
    (hopen : o ∉ s.acked ∧ o ∉ s.dropped) : s.oldestOpen ≤ o := by
  unfold oldestOpen
  cases hfind : (List.range s.sent.length).find? fun j => j ∉ s.acked ∧ j ∉ s.dropped with
  | none =>
    have hdone := List.find?_eq_none.mp hfind o (List.mem_range.mpr hlt)
    exact absurd (by simpa using hopen) hdone
  | some k =>
    by_contra hlater
    have hdone := (List.find?_range_eq_some.mp hfind).2.2 o (by simpa using hlater)
    simp [hopen] at hdone

theorem ReliableSender.oldestOpen_le_length (s : ReliableSender) :
    s.oldestOpen ≤ s.sent.length := by
  unfold oldestOpen
  cases hfind : (List.range s.sent.length).find? fun j => j ∉ s.acked ∧ j ∉ s.dropped with
  | none => exact Nat.le_refl _
  | some k => exact Nat.le_of_lt (List.mem_range.mp (List.mem_of_find?_eq_some hfind))

/-! ### The window -/

/-- The slot is message `j`'s, and its flags say what has become of the message. -/
structure Tells (s : ReliableSender) (msg : SentMessage) (j : Nat) : Prop where
  sequence : msg.sequence = j % u16Size
  acked : msg.acked = true → j ∈ s.acked
  marked : j ∈ s.acked → msg.acked = true ∨ j ∈ s.dropped
  dropped : j ∈ s.dropped → msg.acked = false ∧ msg.valid = false
  waiting : msg.valid = false → msg.acked = true ∨ j ∈ s.dropped

/-- The messages from `o` on are outstanding, each in its slot; those before it are
acknowledged. -/
structure InWindow (s : ReliableSender) (o : Nat) : Prop where
  le : o ≤ s.sent.length
  width : s.sent.length ≤ o + 64
  next : s.state.sendSeq = s.sent.length % u16Size
  oldest : s.state.oldestUnacked = o % u16Size
  slot : ∀ j, o ≤ j → j < s.sent.length → Tells s (s.state.sentBuffer.get j) j
  before : ∀ j < o, j ∈ s.acked
  sent : ∀ j, j ∈ s.acked ∨ j ∈ s.dropped → j < s.sent.length

variable {s : ReliableSender} {o : Nat}

theorem inWindow_start : InWindow .start 0 where
  le := Nat.le_refl 0
  width := Nat.zero_le _
  next := rfl
  oldest := rfl
  slot j _ hj := absurd hj (Nat.not_lt_zero j)
  before j hj := absurd hj (Nat.not_lt_zero j)
  sent j hj := by simp [ReliableSender.start] at hj

theorem InWindow.ahead_eq (h : InWindow s o) :
    ahead u16Size s.state.oldestUnacked s.state.sendSeq = s.sent.length - o := by
  have hwidth := h.width
  rw [h.next, h.oldest]
  exact ahead_mod h.le (by unfold u16Size; omega)

/-- The message of the window in the slot of `seq` has the slot's number. -/
theorem InWindow.mem_current_iff (h : InWindow s o) {j : Nat} (hlow : o ≤ j)
    (hhigh : j < s.sent.length) (seq : Nat) : j ∈ s.current seq ↔ j % u16Size = seq := by
  have hwidth := h.width
  rw [ReliableSender.mem_current]
  exact ⟨fun hj => hj.2.1, fun hj => ⟨hhigh, hj, by unfold u16Size; omega⟩⟩

/-! ### Each call -/

theorem InWindow.recordSend (h : InWindow s o) {data : Bytes} {packetSeq : Nat} {time : Time}
    (hroom : RecordsInWindow s (.recordSend data packetSeq time)) :
    InWindow (senderStep s (.recordSend data packetSeq time)) o := by
  simp only [RecordsInWindow, h.ahead_eq, reliableBufferSize] at hroom
  simp only [senderStep, ReliableChannelState.recordSend]
  by_cases hlen : data.length = 0 ∨ mtu < data.length
  · rw [if_pos hlen]
    exact h
  rw [if_neg hlen]
  have hle := h.le
  have hcell : s.state.sendSeq % 64 = s.sent.length % 64 := by rw [h.next, mod_u16Size_mod]
  have hfresh : s.sent.length ∉ s.acked ∧ s.sent.length ∉ s.dropped :=
    ⟨fun hc => Nat.lt_irrefl _ (h.sent _ (Or.inl hc)),
      fun hc => Nat.lt_irrefl _ (h.sent _ (Or.inr hc))⟩
  refine ⟨?_, ?_, ?_, h.oldest, ?_, h.before, ?_⟩
  · simp
    omega
  · simp
    omega
  · simp [h.next]
  · intro j hlow hhigh
    simp only [List.length_append, List.length_singleton] at hhigh
    simp only [Table.get_set, hcell]
    rcases Nat.lt_or_ge j s.sent.length with hlt | hge
    · rw [if_neg (mod_ne_of_near (by omega) (by omega) (by omega))]
      obtain ⟨hseq, hacked, hmarked, hdropped, hwaiting⟩ := h.slot j hlow hlt
      exact ⟨hseq, hacked, hmarked, hdropped, hwaiting⟩
    · have hj : j = s.sent.length := by omega
      rw [hj, if_pos rfl]
      exact ⟨h.next, by simp, fun hc => absurd hc hfresh.1, fun hc => absurd hc hfresh.2, by simp⟩
  · intro j hj
    have := h.sent j hj
    simp
    omega

/-- One slot is rewritten: the message of the window in it is told by the new record, and
what is said of the others has not changed. -/
theorem InWindow.rewrite (h : InWindow s o) {seq : Nat} {msg : SentMessage} {dropCount : Nat}
    {acked dropped : List Nat}
    (hother : ∀ j, o ≤ j → j < s.sent.length → j % 64 ≠ seq % 64 →
      (j ∈ acked ↔ j ∈ s.acked) ∧ (j ∈ dropped ↔ j ∈ s.dropped))
    (hslot : ∀ j, o ≤ j → j < s.sent.length → j % 64 = seq % 64 →
      Tells { s with acked := acked, dropped := dropped } msg j)
    (hbefore : ∀ j ∈ s.acked, j ∈ acked)
    (hsent : ∀ j, j ∈ acked ∨ j ∈ dropped → j < s.sent.length) :
    InWindow { s with
      state := { s.state with
        sentBuffer := s.state.sentBuffer.set seq msg, messagesDropped := dropCount }
      acked := acked
      dropped := dropped } o := by
  refine ⟨h.le, h.width, h.next, h.oldest, ?_, fun j hj => hbefore j (h.before j hj), hsent⟩
  intro j hlow hhigh
  show Tells _ ((s.state.sentBuffer.set seq msg).get j) j
  rw [Table.get_set]
  by_cases hsame : j % 64 = seq % 64
  · rw [if_pos hsame]
    obtain ⟨hseq, hacked, hmarked, hdropped, hwaiting⟩ := hslot j hlow hhigh hsame
    exact ⟨hseq, hacked, hmarked, hdropped, hwaiting⟩
  · rw [if_neg hsame]
    obtain ⟨hacked', hdropped'⟩ := hother j hlow hhigh hsame
    obtain ⟨hseq, hacked, hmarked, hdropped, hwaiting⟩ := h.slot j hlow hhigh
    refine ⟨hseq, ?_, ?_, ?_, ?_⟩
    · simp only [hacked']
      exact hacked
    · simp only [hacked', hdropped']
      exact hmarked
    · simp only [hdropped']
      exact hdropped
    · simp only [hdropped']
      exact hwaiting

/-- A message in the slot of `seq` that is not of that number is in another slot. -/
theorem InWindow.not_current (h : InWindow s o) {j seq : Nat} (hlow : o ≤ j)
    (hhigh : j < s.sent.length) (hne : j % 64 ≠ seq % 64) : j ∉ s.current seq := by
  rw [h.mem_current_iff hlow hhigh]
  rintro rfl
  exact hne (mod_u16Size_mod j).symm

theorem ReliableSender.current_lt {j seq : Nat} (hj : j ∈ s.current seq) : j < s.sent.length :=
  (ReliableSender.mem_current.mp hj).1

/-- The record a mark leaves in the slot. -/
def marked (msg : SentMessage) (msgSeq : Nat) : SentMessage :=
  if msg.valid ∧ msg.sequence = msgSeq then { msg with acked := true } else msg

/-- The mark of `mark_acked`: of the outstanding messages the one it names is acknowledged,
unless it has been dropped. -/
theorem InWindow.mark (h : InWindow s o) (msgSeq : Nat) :
    InWindow { s with
      state := { s.state with sentBuffer :=
        s.state.sentBuffer.set msgSeq (marked (s.state.sentBuffer.get msgSeq) msgSeq) }
      acked := s.acked ++ s.current msgSeq } o := by
  refine h.rewrite ?_ ?_ (fun j hj => List.mem_append_left _ hj) ?_
  · intro j hlow hhigh hne
    have hnot := h.not_current hlow hhigh hne
    simp [hnot]
  · intro j hlow hhigh hsame
    obtain ⟨hseq, hacked, hmarked, hdropped, hwaiting⟩ := h.slot j hlow hhigh
    rw [← Table.get_congr s.state.sentBuffer hsame]
    have hcur := h.mem_current_iff hlow hhigh msgSeq
    rw [← hseq] at hcur
    generalize s.state.sentBuffer.get j = msg at *
    unfold marked
    by_cases hown : msg.valid = true ∧ msg.sequence = msgSeq
    · have hvalid : j ∉ s.dropped := fun hc => by simp [(hdropped hc).2] at hown
      rw [if_pos hown]
      exact ⟨hseq, fun _ => List.mem_append_right _ (hcur.mpr hown.2), fun _ => Or.inl rfl,
        fun hc => absurd hc hvalid, fun hc => by simp [hown.1] at hc⟩
    · rw [if_neg hown]
      refine ⟨hseq, fun hc => List.mem_append_left _ (hacked hc), ?_, hdropped, hwaiting⟩
      intro hj
      rcases List.mem_append.mp hj with hold | hnew
      · exact hmarked hold
      · exact hwaiting (Bool.eq_false_iff.mpr fun hc => hown ⟨hc, hcur.mp hnew⟩)
  · intro j hj
    rcases hj with hj | hj
    · rcases List.mem_append.mp hj with hold | hnew
      · exact h.sent j (Or.inl hold)
      · exact ReliableSender.current_lt hnew
    · exact h.sent j (Or.inr hj)

/-- The message at the oldest place is not acknowledged. -/
def StopsAt (s : ReliableSender) (o : Nat) : Prop :=
  o < s.sent.length → (s.state.sentBuffer.get o).acked = false

/-- The oldest message is acknowledged: its slot is given up, and the window starts with the
next one. -/
theorem InWindow.moveOn (h : InWindow s o) (hlt : o < s.sent.length)
    (hacked : (s.state.sentBuffer.get o).acked = true) :
    InWindow { s with state := { s.state with
      sentBuffer := s.state.sentBuffer.set s.state.oldestUnacked
        { s.state.sentBuffer.get s.state.oldestUnacked with valid := false }
      oldestUnacked := (s.state.oldestUnacked + 1) % u16Size } } (o + 1) := by
  have hwidth := h.width
  refine ⟨hlt, by dsimp only; omega, h.next, ?_, ?_, ?_, h.sent⟩
  · show (s.state.oldestUnacked + 1) % u16Size = (o + 1) % u16Size
    rw [h.oldest, Nat.mod_add_mod]
  · intro j hlow hhigh
    have hlast : j < s.sent.length := hhigh
    have hcell : j % 64 ≠ s.state.oldestUnacked % 64 := by
      rw [h.oldest, mod_u16Size_mod]
      exact mod_ne_of_near (by omega) (by omega) (by omega)
    show Tells _ ((s.state.sentBuffer.set _ _).get j) j
    rw [Table.get_set_of_mod_ne _ _ hcell]
    obtain ⟨hseq, hmarked, hacked', hdropped, hwaiting⟩ := h.slot j (by omega) hhigh
    exact ⟨hseq, hmarked, hacked', hdropped, hwaiting⟩
  · intro j hj
    rcases Nat.lt_or_ge j o with hjo | hjo
    · exact h.before j hjo
    · rw [show j = o by omega]
      exact (h.slot o (Nat.le_refl o) hlt).acked hacked

/-- The loop of `mark_acked` stops at the first message that is not acknowledged. -/
theorem InWindow.advanceOldest : ∀ (fuel : Nat) {s : ReliableSender} {o : Nat}, InWindow s o →
    s.sent.length - o < fuel →
    ∃ o', InWindow { s with state := s.state.advanceOldest fuel } o' ∧
      StopsAt { s with state := s.state.advanceOldest fuel } o' := by
  intro fuel
  induction fuel with
  | zero => intro s o _ hfuel; exact absurd hfuel (Nat.not_lt_zero _)
  | succ fuel ih =>
    intro s o h hfuel
    have hle := h.le
    have hwidth := h.width
    rw [ReliableChannelState.advanceOldest]
    have hget : s.state.sentBuffer.get s.state.oldestUnacked = s.state.sentBuffer.get o := by
      rw [h.oldest]
      exact Table.get_congr _ (mod_u16Size_mod o)
    rcases Nat.lt_or_ge o s.sent.length with hlt | hge
    · have htells := h.slot o (Nat.le_refl o) hlt
      have hne : s.state.oldestUnacked ≠ s.state.sendSeq := by
        rw [h.oldest, h.next]
        unfold u16Size
        omega
      have hseq : (s.state.sentBuffer.get s.state.oldestUnacked).sequence
          = s.state.oldestUnacked := by
        rw [hget, htells.sequence, h.oldest]
      by_cases hacked : (s.state.sentBuffer.get o).acked = true
      · -- Acknowledged: the slot is given up and the loop goes on with the next message.
        have hgo : ¬ (s.state.oldestUnacked = s.state.sendSeq ∨
            (s.state.sentBuffer.get s.state.oldestUnacked).acked = false ∨
            (s.state.sentBuffer.get s.state.oldestUnacked).sequence ≠ s.state.oldestUnacked) := by
          rintro (hc | hc | hc)
          · exact hne hc
          · rw [hget, hacked] at hc
            exact Bool.noConfusion hc
          · exact hc hseq
        rw [if_neg hgo]
        exact ih (h.moveOn hlt hacked) (by dsimp only; omega)
      · rw [if_pos (Or.inr (Or.inl (by rw [hget]; exact Bool.eq_false_iff.mpr hacked)))]
        exact ⟨o, h, fun _ => Bool.eq_false_iff.mpr hacked⟩
    · have heq : s.state.oldestUnacked = s.state.sendSeq := by
        rw [h.oldest, h.next, show o = s.sent.length by omega]
      rw [if_pos (Or.inl heq)]
      exact ⟨o, h, fun hlt => absurd hlt (Nat.not_lt.mpr hge)⟩

/-- `mark_acked` as a whole. -/
theorem InWindow.markAcked (h : InWindow s o) (msgSeq : Nat) :
    ∃ o', InWindow (senderStep s (.markAcked msgSeq)) o' ∧
      StopsAt (senderStep s (.markAcked msgSeq)) o' := by
  have hwidth := h.width
  have hmark := h.mark msgSeq
  have hstate : (if (s.state.sentBuffer.get msgSeq).valid = true ∧
        (s.state.sentBuffer.get msgSeq).sequence = msgSeq then
      { s.state with
        sentBuffer := s.state.sentBuffer.set msgSeq
          { s.state.sentBuffer.get msgSeq with acked := true } }
      else s.state) =
      { s.state with
        sentBuffer := s.state.sentBuffer.set msgSeq
          (marked (s.state.sentBuffer.get msgSeq) msgSeq) } := by
    unfold marked
    split
    · rfl
    · rw [Table.set_get_self]
  simp only [senderStep, ReliableChannelState.markAcked, hstate]
  exact hmark.advanceOldest u16Size (by dsimp only; unfold u16Size; omega)

theorem InWindow.drop (h : InWindow s o) {seq : Nat}
    (hseq : (s.state.sentBuffer.get seq).sequence = seq)
    (hopen : (s.state.sentBuffer.get seq).acked = false) : InWindow (s.giveUp seq) o := by
  unfold ReliableSender.giveUp
  refine h.rewrite ?_ ?_ (fun j hj => hj) ?_
  · intro j hlow hhigh hne
    have hnot := h.not_current hlow hhigh hne
    simp [hnot]
  · intro j hlow hhigh hsame
    have htells := h.slot j hlow hhigh
    rw [Table.get_congr s.state.sentBuffer hsame] at htells
    have hcur : j ∈ s.dropped ++ s.current seq := by
      refine List.mem_append_right _ ((h.mem_current_iff hlow hhigh seq).mpr ?_)
      rw [← htells.sequence, hseq]
    exact ⟨htells.sequence, htells.acked, fun _ => Or.inr hcur, fun _ => ⟨hopen, rfl⟩,
      fun _ => Or.inr hcur⟩
  · intro j hj
    rcases hj with hj | hj
    · exact h.sent j (Or.inl hj)
    · rcases List.mem_append.mp hj with hold | hnew
      · exact h.sent j (Or.inr hold)
      · exact ReliableSender.current_lt hnew

theorem InWindow.findRetransmits (h : InWindow s o) (now rto : Time) (maxCount : Nat) :
    InWindow (senderStep s (.findRetransmits now rto maxCount)) o :=
  findRetransmits_rule (P := fun s => InWindow s o) (fun h _ hseq hopen => h.drop hseq hopen) h now
    rto maxCount

theorem InWindow.resent (h : InWindow s o) (msgSeq packetSeq retryCount : Nat) (time : Time) :
    InWindow (senderStep s (.resent msgSeq packetSeq retryCount time)) o := by
  simp only [senderStep, noteResent, ReliableChannelState.getForRetransmit]
  split
  · exact h
  · rename_i msg hmsg
    split at hmsg
    · rw [Option.some.injEq] at hmsg
      subst hmsg
      refine h.rewrite (fun j _ _ _ => ⟨Iff.rfl, Iff.rfl⟩) ?_ (fun j hj => hj) h.sent
      intro j hlow hhigh hsame
      obtain ⟨hseq, hacked, hmarked, hdropped, hwaiting⟩ := h.slot j hlow hhigh
      rw [Table.get_congr s.state.sentBuffer hsame] at hseq hacked hmarked hdropped hwaiting
      exact ⟨hseq, hacked, hmarked, hdropped, hwaiting⟩
    · exact absurd hmsg.symm (Option.some_ne_none _)

/-! ### Runs -/

theorem inWindow_step (s : ReliableSender) (e : SenderEvent) (h : ∃ o, InWindow s o)
    (hroom : RecordsInWindow s e) : ∃ o, InWindow (senderStep s e) o := by
  obtain ⟨o, h⟩ := h
  cases e with
  | recordSend data packetSeq time => exact ⟨o, h.recordSend hroom⟩
  | markAcked msgSeq =>
    obtain ⟨o', h', -⟩ := h.markAcked msgSeq
    exact ⟨o', h'⟩
  | findRetransmits now rto maxCount => exact ⟨o, h.findRetransmits now rto maxCount⟩
  | resent msgSeq packetSeq retryCount time => exact ⟨o, h.resent msgSeq packetSeq retryCount time⟩

/--
**After every `mark_acked`, `oldest_unacked` is the oldest message still open**, past any
number of wraps, in every run with at most 64 messages outstanding, as long as no message
that was dropped is older than all that are open.
-/
theorem oldest_unacked_is_oldest_open (es : List SenderEvent) (msgSeq : Nat)
    (hroom : Along senderStep RecordsInWindow .start es)
    (hdropped : ∀ d ∈ (run senderStep .start (es ++ [.markAcked msgSeq])).dropped,
      (run senderStep .start (es ++ [.markAcked msgSeq])).oldestOpen < d) :
    let s := run senderStep .start (es ++ [.markAcked msgSeq])
    s.state.oldestUnacked = s.oldestOpen % u16Size ∧
      s.state.sendSeq = s.sent.length % u16Size := by
  intro s
  obtain ⟨o, hbefore⟩ : ∃ o, InWindow (run senderStep .start es) o :=
    run_invariant (fun s => ∃ o, InWindow s o) inWindow_step ⟨0, inWindow_start⟩ hroom
  obtain ⟨o', h, hstops⟩ := hbefore.markAcked msgSeq
  have hs : senderStep (run senderStep .start es) (.markAcked msgSeq) = s := by
    rw [show s = _ from run_append senderStep .start es [.markAcked msgSeq]]
    rfl
  rw [hs] at h hstops
  refine ⟨?_, h.next⟩
  have hlow : o' ≤ s.oldestOpen :=
    ReliableSender.le_oldestOpen h.le fun j hj => Or.inl (h.before j hj)
  have hhigh : s.oldestOpen ≤ o' := by
    rcases Nat.lt_or_ge o' s.sent.length with hlt | hge
    · -- The loop has stopped at `o'`, which is then dropped or open.
      have hkept : o' ∉ s.dropped := fun hd => Nat.not_lt.mpr hlow (hdropped o' hd)
      refine ReliableSender.oldestOpen_le hlt ⟨fun hacked => ?_, hkept⟩
      rcases (h.slot o' (Nat.le_refl _) hlt).marked hacked with hflag | hd
      · rw [hstops hlt] at hflag
        exact Bool.noConfusion hflag
      · exact hkept hd
    · exact Nat.le_trans s.oldestOpen_le_length hge
  rw [h.oldest, Nat.le_antisymm hlow hhigh]

/-- Of three messages the newest is dropped and the oldest acknowledged; the second is open. -/
theorem oldest_unacked_is_second :
    (run senderStep .start ([.recordSend [1] 0 0, .recordSend [2] 0 0, .recordSend [3] 0 0,
      .resent 2 1 10 0, .findRetransmits 50 1 16] ++ [.markAcked 0])).state.oldestUnacked = 1 :=
  (oldest_unacked_is_oldest_open [.recordSend [1] 0 0, .recordSend [2] 0 0, .recordSend [3] 0 0,
    .resent 2 1 10 0, .findRetransmits 50 1 16] 0 (by decide +kernel) (by decide +kernel)).1.trans
    (by decide +kernel)

/-- Two messages: the first is given up after ten retries, the second acknowledged. -/
def dropThenAck : List SenderEvent :=
  [.recordSend [1] 0 0, .recordSend [2] 0 0, .resent 0 1 10 0, .findRetransmits 40 1 16,
    .markAcked 1]

/-- Nothing is open, and the window still starts at the message that was given up. -/
theorem dropped_message_blocks_window :
    Along senderStep RecordsInWindow .start dropThenAck ∧
    (run senderStep .start dropThenAck).dropped = [0] ∧
    (run senderStep .start dropThenAck).acked = [1] ∧
    (run senderStep .start dropThenAck).oldestOpen = 2 ∧
    (run senderStep .start dropThenAck).state.sendSeq = 2 ∧
    (run senderStep .start dropThenAck).state.oldestUnacked = 0 := by
  decide +kernel

end Netudp
