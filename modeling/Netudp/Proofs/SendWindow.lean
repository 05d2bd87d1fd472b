/-
The window of packets in flight.

Packet `j` has sequence `j % 2 ^ 16` and its record sits in slot `(j % 2 ^ 16) % 33`.  The
33 packets of a full window have 33 different slots as long as none of them is across
the wrap of the sequence from another: `2 ^ 16` is 31 more than a multiple of 33, so the
packet after the wrap shares its slot with the packet 31 before it.  A sender that does
not let 31 packets be in flight over the wrap keeps every record.
-/
import Netudp.Lib.Run
import Netudp.Proofs.PacketTracker

namespace Netudp

open Lib

/-! ### The system -/

/-- A tracker, the times its packets were sent at, packet `j` at position `j`, and the
packets acknowledged so far. -/
structure WindowRun where
  tracker : PacketTracker
  times : List Time
  acked : List Nat

namespace WindowRun

def start : WindowRun := ⟨.reset, [], []⟩

/-- The packets the fields name: of each sequence the last packet sent under it. -/
def namedBy (s : WindowRun) (fields : AckFields) : List Nat :=
  (List.range s.times.length).filter fun j =>
    j % u16Size ∈ fields.named ∧ s.times.length ≤ j + u16Size

end WindowRun

inductive WindowEvent where
  | send (time : Time)
  | acks (fields : AckFields)

/-- `send_packet` or `process_acks`. -/
def windowStep (s : WindowRun) : WindowEvent → WindowRun
  | .send time => { s with tracker := s.tracker.sendPacket time, times := s.times ++ [time] }
  | .acks fields =>
    { s with
      tracker := (s.tracker.processAcks fields).2
      acked := s.acked ++ s.namedBy fields }

/-- A packet is sent only when the window is not full. -/
def SendsInWindow (s : WindowRun) : WindowEvent → Prop
  | .send _ => s.tracker.isWindowFull = false
  | .acks _ => True

/-- The first 31 packets after the wrap are sent only with fewer than 31 in flight. -/
def ClearOfWrap (s : WindowRun) : WindowEvent → Prop
  | .send _ => s.tracker.sendSequence < 31 →
      ahead u16Size s.tracker.oldestUnacked s.tracker.sendSequence < 31
  | .acks _ => True

instance (s : WindowRun) : ∀ e, Decidable (SendsInWindow s e)
  | .send _ => inferInstanceAs (Decidable (_ = _))
  | .acks _ => isTrue trivial

instance (s : WindowRun) : ∀ e, Decidable (ClearOfWrap s e)
  | .send _ => inferInstanceAs (Decidable (_ → _))
  | .acks _ => isTrue trivial

theorem WindowRun.mem_namedBy {s : WindowRun} {fields : AckFields} {j : Nat} :
    j ∈ s.namedBy fields ↔
      j < s.times.length ∧ j % u16Size ∈ fields.named ∧ s.times.length ≤ j + u16Size := by
  simp [WindowRun.namedBy]

/-! ### Slots -/

/-- A packet shares its slot with one of the 32 before it only across the wrap, and then
with the one 31 before it. -/
theorem slot_ne_of_clear {j n : Nat} (hlt : j < n) (hnear : n ≤ j + 32)
    (hclear : n % u16Size < 31 → n < j + 31) : j % u16Size % 33 ≠ n % u16Size % 33 := by
  unfold u16Size at *
  have hj := Nat.mod_add_div j 65536
  have hn := Nat.mod_add_div n 65536
  generalize j % 65536 = a at *
  generalize n % 65536 = b at *
  -- Either both lie between the same two wraps, or `n` is past one more of them.
  have hwraps : n / 65536 = j / 65536 ∨ n / 65536 = j / 65536 + 1 := by omega
  rcases hwraps with hsame | hover
  · omega
  · omega

/-! ### The window -/

/-- The packets from `o` on are in flight, each with its own record. -/
structure InFlight (s : WindowRun) (o : Nat) : Prop where
  le : o ≤ s.times.length
  window : s.times.length ≤ o + 33
  next : s.tracker.sendSequence = s.times.length % u16Size
  oldest : s.tracker.oldestUnacked = o % u16Size
  own : ∀ j, o ≤ j → j < s.times.length →
    (s.tracker.sent.get (j % u16Size)).sequence = j % u16Size ∧
    s.times[j]? = some (s.tracker.sent.get (j % u16Size)).sendTime ∧
    ((s.tracker.sent.get (j % u16Size)).acked = true ↔ j ∈ s.acked)
  before : ∀ j, j < o → j ∈ s.acked
  sent : ∀ j ∈ s.acked, j < s.times.length

/-- The oldest of them is not acknowledged. -/
def OldestOpen (s : WindowRun) (o : Nat) : Prop :=
  o < s.times.length → o ∉ s.acked

variable {s : WindowRun} {o : Nat}

theorem inFlight_start : InFlight .start 0 where
  le := Nat.le_refl 0
  window := Nat.zero_le _
  next := rfl
  oldest := rfl
  own := fun j _ hj => absurd hj (Nat.not_lt_zero j)
  before := fun j hj => absurd hj (Nat.not_lt_zero j)
  sent := List.forall_mem_nil _

theorem InFlight.ahead_eq (h : InFlight s o) :
    ahead u16Size s.tracker.oldestUnacked s.tracker.sendSequence = s.times.length - o := by
  rw [h.next, h.oldest]
  have hwindow := h.window
  exact ahead_mod h.le (by unfold u16Size; omega)

/-- A send within the window and clear of the wrap overwrites no record in flight. -/
theorem InFlight.send (h : InFlight s o) {time : Time} (hopen : SendsInWindow s (.send time))
    (hclear : ClearOfWrap s (.send time)) : InFlight (windowStep s (.send time)) o := by
  simp only [SendsInWindow, PacketTracker.isWindowFull, ClearOfWrap, h.ahead_eq,
    decide_eq_false_iff_not] at hopen hclear
  rw [h.next] at hclear
  have hle := h.le
  have hne : ∀ j, o ≤ j → j < s.times.length →
      j % u16Size % 33 ≠ s.tracker.sendSequence % 33 := by
    intro j hj hlt
    rw [h.next]
    exact slot_ne_of_clear hlt (by omega) (fun hsmall => by have := hclear hsmall; omega)
  simp only [windowStep, PacketTracker.sendPacket]
  refine ⟨?_, ?_, ?_, h.oldest, ?_, h.before, ?_⟩
  · simp only [List.length_append, List.length_singleton]
    omega
  · simp only [List.length_append, List.length_singleton]
    omega
  · simp only [List.length_append, List.length_singleton]
    rw [h.next, Nat.mod_add_mod]
  · intro j hj hlt
    simp only [List.length_append, List.length_singleton] at hlt
    simp only [Table.get_set]
    rcases Nat.lt_or_ge j s.times.length with hold | hnew
    · rw [if_neg (hne j hj hold), List.getElem?_append_left hold]
      exact h.own j hj hold
    · have hj' : j = s.times.length := by omega
      rw [hj', ← h.next, if_pos rfl]
      refine ⟨rfl, List.getElem?_concat_length, ?_⟩
      exact iff_of_false Bool.false_ne_true fun hmem => absurd (h.sent _ hmem) (Nat.lt_irrefl _)
  · intro j hj
    simp only [List.length_append, List.length_singleton]
    exact Nat.lt_succ_of_lt (h.sent j hj)

theorem InFlight.marks (h : InFlight s o) (fields : AckFields) {t : PacketTracker}
    (hsame : s.tracker.SameCounters t) (hold : t.oldestUnacked = s.tracker.oldestUnacked)
    (hget : ∀ k, t.sent.get k = PacketTracker.markedIn fields.named k (s.tracker.sent.get k)) :
    InFlight { s with tracker := t, acked := s.acked ++ s.namedBy fields } o := by
  refine ⟨h.le, h.window, hsame.sendSequence.trans h.next, hold.trans h.oldest, ?_, ?_, ?_⟩
  · intro j hj hlt
    obtain ⟨hseq, htime, hacked⟩ := h.own j hj hlt
    have hwindow := h.window
    have hnamed : j ∈ s.namedBy fields ↔ j % u16Size ∈ fields.named := by
      rw [WindowRun.mem_namedBy]
      exact ⟨fun hj => hj.2.1, fun hj => ⟨hlt, hj, by unfold u16Size; omega⟩⟩
    rw [hget]
    refine ⟨hseq, htime, ?_⟩
    simp only [PacketTracker.markedIn, hseq, and_true, Bool.or_eq_true, decide_eq_true_eq, hacked,
      List.mem_append, hnamed]
  · exact fun j hj => List.mem_append_left _ (h.before j hj)
  · intro j hj
    rcases List.mem_append.mp hj with hold | hnew
    · exact h.sent j hold
    · exact (WindowRun.mem_namedBy.mp hnew).1

/-- The oldest packet is acknowledged, and the window starts with the next one. -/
theorem InFlight.moveOn (h : InFlight s o) (hlt : o < s.times.length) (hmem : o ∈ s.acked) :
    InFlight { s with tracker :=
      { s.tracker with oldestUnacked := (s.tracker.oldestUnacked + 1) % u16Size } } (o + 1) := by
  have hwindow := h.window
  refine ⟨hlt, ?_, h.next, ?_, ?_, ?_, h.sent⟩
  · show s.times.length ≤ o + 1 + 33
    omega
  · show (s.tracker.oldestUnacked + 1) % u16Size = (o + 1) % u16Size
    rw [h.oldest, Nat.mod_add_mod]
  · exact fun j hj => h.own j (by omega)
  · intro j hj
    rcases Nat.lt_or_ge j o with hjo | hjo
    · exact h.before j hjo
    · rwa [show j = o by omega]

/-- The loop of `process_acks` moves past the acknowledged packets and stops at the first
one that is not. -/
theorem InFlight.advanceOldest : ∀ (fuel : Nat) {s : WindowRun} {o : Nat}, InFlight s o →
    s.times.length - o < fuel →
    ∃ o', InFlight { s with tracker := s.tracker.advanceOldest fuel } o' ∧
      OldestOpen { s with tracker := s.tracker.advanceOldest fuel } o' := by
  intro fuel
  induction fuel with
  | zero => intro s o _ hfuel; exact absurd hfuel (Nat.not_lt_zero _)
  | succ fuel ih =>
    intro s o h hfuel
    have hle := h.le
    have hwindow := h.window
    rw [PacketTracker.advanceOldest]
    rcases Nat.lt_or_ge o s.times.length with hlt | hge
    · obtain ⟨hseq, -, hacked⟩ := h.own o (Nat.le_refl o) hlt
      have hne : s.tracker.oldestUnacked ≠ s.tracker.sendSequence := by
        rw [h.oldest, h.next]
        unfold u16Size
        omega
      rw [← h.oldest] at hseq hacked
      by_cases hmem : o ∈ s.acked
      · -- Acknowledged: the loop goes on with the next packet.
        rw [if_neg (by simp [hne, hacked.mpr hmem, hseq])]
        have hfuel' : s.times.length - (o + 1) < fuel := by omega
        exact ih (h.moveOn hlt hmem) hfuel'
      · rw [if_pos (Or.inr (Or.inl (by simpa using fun hc => hmem (hacked.mp hc))))]
        exact ⟨o, h, fun _ => hmem⟩
    · have heq : s.tracker.oldestUnacked = s.tracker.sendSequence := by
        rw [h.oldest, h.next, show o = s.times.length by omega]
      rw [if_pos (Or.inl heq)]
      exact ⟨o, h, fun hlt => absurd hlt (Nat.not_lt.mpr hge)⟩

/-- `process_acks` leaves the window at the first packet not acknowledged. -/
theorem InFlight.acks (h : InFlight s o) (fields : AckFields) :
    ∃ o', InFlight (windowStep s (.acks fields)) o' ∧
      OldestOpen (windowStep s (.acks fields)) o' := by
  have hwindow := h.window
  obtain ⟨hsame, hold⟩ := PacketTracker.foldl_countMark_counters fields.named (0, s.tracker)
  have hmarks := h.marks fields hsame hold
    (fun k => PacketTracker.foldl_countMark_get fields.named k (0, s.tracker))
  simp only [windowStep, PacketTracker.processAcks_eq]
  exact hmarks.advanceOldest u16Size (by dsimp only; unfold u16Size; omega)

/-! ### Runs -/

/-- The window, at its oldest open packet. -/
def Windowed (s : WindowRun) : Prop :=
  ∃ o, InFlight s o ∧ OldestOpen s o

theorem windowed_step (s : WindowRun) (e : WindowEvent) (h : Windowed s)
    (hok : SendsInWindow s e ∧ ClearOfWrap s e) : Windowed (windowStep s e) := by
  obtain ⟨o, hflight, holdest⟩ := h
  cases e with
  | send time =>
    refine ⟨o, hflight.send hok.1 hok.2, ?_⟩
    intro _ hmem
    exact holdest (hflight.sent o hmem) hmem
  | acks fields => exact hflight.acks fields

/--
**The window keeps every record in flight**, past any number of wraps, in every run that
sends within the window and clear of the wrap.  The packets of `[oldest_unacked,
send_sequence)` are those from some `o` on; each has the time it was sent at and is
marked by any acknowledgement that names it, all before `o` are acknowledged, and `o`
itself is not.
-/
theorem window_keeps_records (es : List WindowEvent)
    (hopen : Along windowStep SendsInWindow .start es)
    (hclear : Along windowStep ClearOfWrap .start es) :
    let s := run windowStep .start es
    ∃ o, o ≤ s.times.length ∧ s.times.length ≤ o + 33 ∧
      s.tracker.oldestUnacked = o % u16Size ∧
      s.tracker.sendSequence = s.times.length % u16Size ∧
      (∀ j, o ≤ j → j < s.times.length →
        s.times[j]? = some (s.tracker.getSendTime (j % u16Size)) ∧
        ∀ fields : AckFields, j % u16Size ∈ fields.named →
          (s.tracker.processAcks fields).2.isAcked (j % u16Size) = true) ∧
      (∀ j, j < o → j ∈ s.acked) ∧ (o < s.times.length → o ∉ s.acked) := by
  intro s
  have hstart : Windowed .start := ⟨0, inFlight_start, fun h => absurd h (Nat.lt_irrefl 0)⟩
  obtain ⟨o, hflight, holdest⟩ : Windowed s :=
    run_invariant Windowed windowed_step hstart (along_and.mpr ⟨hopen, hclear⟩)
  refine ⟨o, hflight.le, hflight.window, hflight.oldest, hflight.next, ?_, hflight.before,
    holdest⟩
  intro j hj hlt
  obtain ⟨hseq, htime, -⟩ := hflight.own j hj hlt
  refine ⟨?_, ?_⟩
  · rw [PacketTracker.getSendTime, if_pos hseq]
    exact htime
  · intro fields hnamed
    rw [PacketTracker.processAcks_isAcked, PacketTracker.isAcked_iff, PacketTracker.Open]
    cases hacked : (s.tracker.sent.get (j % u16Size)).acked with
    | true => exact Or.inl ⟨rfl, hseq⟩
    | false => exact Or.inr ⟨hnamed, hseq, rfl⟩

/-- Three packets, the first of them acknowledged. -/
def threeSends : List WindowEvent :=
  [.send 1, .send 2, .acks { ack := 0 }, .send 3]

theorem window_keeps_third_record :
    (run windowStep .start threeSends).times[2]?
      = some ((run windowStep .start threeSends).tracker.getSendTime (2 % u16Size)) := by
  obtain ⟨o, hle, -, holdest, -, hown, -⟩ :=
    window_keeps_records threeSends (by decide +kernel) (by decide +kernel)
  have hlen : (run windowStep .start threeSends).times.length = 3 := by decide +kernel
  have hone : (run windowStep .start threeSends).tracker.oldestUnacked = 1 := by decide +kernel
  rw [hlen] at hle
  rw [hone, Nat.mod_eq_of_lt (by unfold u16Size; omega)] at holdest
  exact (hown 2 (by omega) (by rw [hlen]; decide)).1

/-! ### A record lost at the wrap -/

/-- Each of `n` packets is acknowledged before the next is sent. -/
def oneByOne (n : Nat) : List WindowEvent :=
  (List.range n).flatMap fun i => [.send 0, .acks { ack := i % u16Size }]

theorem oneByOne_succ (n : Nat) :
    oneByOne (n + 1) = oneByOne n ++ [.send 0, .acks { ack := n % u16Size }] := by
  simp only [oneByOne, List.range_succ, List.flatMap_append, List.flatMap_singleton]

theorem oneByOne_flight (n : Nat) :
    Along windowStep SendsInWindow .start (oneByOne n) ∧
      (run windowStep .start (oneByOne n)).times.length = n ∧
      InFlight (run windowStep .start (oneByOne n)) n := by
  induction n with
  | zero => exact ⟨trivial, rfl, inFlight_start⟩
  | succ n ih =>
    obtain ⟨hal, hlen, hflight⟩ := ih
    rw [oneByOne_succ, along_append, run_append]
    generalize run windowStep .start (oneByOne n) = s at *
    have hahead : ahead u16Size s.tracker.oldestUnacked s.tracker.sendSequence = 0 := by
      rw [hflight.ahead_eq, hlen, Nat.sub_self]
    have hopen : SendsInWindow s (.send 0) := by
      simp [SendsInWindow, PacketTracker.isWindowFull, hahead]
    have hsent := hflight.send hopen (fun _ => by rw [hahead]; decide)
    obtain ⟨o, hacked, holdest⟩ := hsent.acks { ack := n % u16Size }
    have hlen' : (windowStep (windowStep s (.send 0)) (.acks { ack := n % u16Size })).times.length
        = n + 1 := by
      simp [windowStep, hlen]
    refine ⟨⟨hal, hopen, trivial, trivial⟩, hlen', ?_⟩
    -- The window starts at the first packet not acknowledged, and there is none.
    have hall : ∀ j, j < n + 1 →
        j ∈ (windowStep (windowStep s (.send 0)) (.acks { ack := n % u16Size })).acked := by
      intro j hj
      rcases Nat.lt_or_ge j n with hlt | hge
      · exact List.mem_append_left _ (hflight.before j hlt)
      · have hjn : j = n := by omega
        refine List.mem_append_right _ (WindowRun.mem_namedBy.mpr ⟨?_, ?_, ?_⟩)
        · simp only [windowStep, List.length_append, hlen, List.length_singleton]
          exact hj
        · rw [hjn]
          exact AckFields.mem_named.mpr (Or.inl rfl)
        · simp only [windowStep, List.length_append, hlen, List.length_singleton]
          unfold u16Size
          omega
    have ho : o = n + 1 := by
      by_contra hne
      have hle := hacked.le
      rw [hlen'] at hle
      have hlt : o < n + 1 := by omega
      exact holdest (by rw [hlen']; exact hlt) (hall o hlt)
    rwa [ho] at hacked

/-- Sends alone move nothing but the next sequence, and stay within the window as long
as they are fewer than 33. -/
theorem sends_run {s : WindowRun} {o : Nat} (time : Time)
    (hsend : s.tracker.sendSequence = o % u16Size) (hold : s.tracker.oldestUnacked = o % u16Size) :
    ∀ m, m ≤ 33 →
      Along windowStep SendsInWindow s (List.replicate m (.send time)) ∧
      (run windowStep s (List.replicate m (.send time))).tracker.oldestUnacked = o % u16Size ∧
      (run windowStep s (List.replicate m (.send time))).tracker.sendSequence
        = (o + m) % u16Size ∧
      (run windowStep s (List.replicate m (.send time))).times
        = s.times ++ List.replicate m time := by
  intro m
  induction m with
  | zero => exact fun _ => ⟨trivial, hold, hsend, by simp⟩
  | succ m ih =>
    intro hm
    obtain ⟨hal, hold', hsend', htimes⟩ := ih (by omega)
    rw [List.replicate_succ', along_append, run_append]
    generalize run windowStep s (List.replicate m (.send time)) = s' at *
    have hopen : SendsInWindow s' (.send time) := by
      simp only [SendsInWindow, PacketTracker.isWindowFull, hold', hsend',
        decide_eq_false_iff_not]
      rw [ahead_mod (by omega) (by unfold u16Size; omega)]
      omega
    refine ⟨⟨hal, hopen, trivial⟩, hold', ?_, ?_⟩
    · show (s'.tracker.sendSequence + 1) % u16Size = (o + (m + 1)) % u16Size
      rw [hsend', Nat.mod_add_mod, Nat.add_assoc]
    · show s'.times ++ [time] = s.times ++ List.replicate (m + 1) time
      rw [htimes, List.replicate_succ', List.append_assoc]

/-- `n` packets one by one, and then 32 in one window. -/
def thenInOneWindow (n : Nat) : List WindowEvent :=
  oneByOne n ++ List.replicate 32 (.send 5)

/-- 32 packets sent in one window over the wrap: the last of them takes the slot of the
first. -/
theorem thenInOneWindow_loses {n : Nat} (hn : n = 65520) :
    Along windowStep SendsInWindow .start (thenInOneWindow n) ∧
      (run windowStep .start (thenInOneWindow n)).tracker.oldestUnacked = n ∧
      (run windowStep .start (thenInOneWindow n)).tracker.sendSequence = 16 ∧
      (run windowStep .start (thenInOneWindow n)).times[n]? = some 5 ∧
      (run windowStep .start (thenInOneWindow n)).tracker.getSendTime n = -1 := by
  obtain ⟨hal, hlen, hflight⟩ := oneByOne_flight n
  rw [thenInOneWindow, along_append, run_append]
  generalize run windowStep .start (oneByOne n) = s at *
  have hnext : s.tracker.sendSequence = n % u16Size := by rw [hflight.next, hlen]
  obtain ⟨hsends, hold, hsend, htimes⟩ := sends_run 5 hnext hflight.oldest 32 (by decide)
  obtain ⟨-, -, hlast, -⟩ := sends_run 5 hnext hflight.oldest 31 (by decide)
  refine ⟨⟨hal, hsends⟩, ?_, ?_, ?_, ?_⟩
  · rw [hold, hn]
    decide
  · rw [hsend, hn]
    decide
  · rw [htimes, List.getElem?_append_right (Nat.le_of_eq hlen), hlen, Nat.sub_self]
    rfl
  · rw [List.replicate_succ', run_append]
    generalize run windowStep s (List.replicate 31 (.send 5)) = s' at *
    have hslot : n % 33 = s'.tracker.sendSequence % 33 := by
      rw [hlast, hn]
      decide
    have hne : s'.tracker.sendSequence ≠ n := by
      rw [hlast, hn]
      decide
    simp only [run_cons, run_nil, windowStep, PacketTracker.sendPacket, PacketTracker.getSendTime,
      Table.get_set, if_pos hslot, if_neg hne]

/-- The window of 32 packets starts at sequence 65520, and the record of that packet is
gone: sequence 15 has taken its slot. -/
theorem record_lost_at_wrap :
    Along windowStep SendsInWindow .start (thenInOneWindow 65520) ∧
    (run windowStep .start (thenInOneWindow 65520)).tracker.oldestUnacked = 65520 ∧
    (run windowStep .start (thenInOneWindow 65520)).tracker.sendSequence = 16 ∧
    (run windowStep .start (thenInOneWindow 65520)).times[65520]? = some 5 ∧
    (run windowStep .start (thenInOneWindow 65520)).tracker.getSendTime 65520 = -1 :=
  thenInOneWindow_loses rfl

end Netudp
