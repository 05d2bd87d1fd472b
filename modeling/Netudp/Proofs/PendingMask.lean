/-
The pending mask.

`netudp_server_update` skips a connection whose mask is empty and `next_channel_fast`
looks only at channels whose bit is set, so a queued message under a cleared bit is
never sent.  The fast scheduler clears the bit of every channel that is not ready, and
a channel can be waiting for its Nagle timer with messages in its queue.  What is
proved is that the mask covers the queues as long as `server_send_pending` is entered
only when every queue can be drained at once.
-/
import Netudp.Proofs.SendPath
import Netudp.Server.Slot

namespace Netudp

open Lib

variable {Key Ct : Type} {C : Primitives Key Ct} {cfg : ServerConfig} {slot : Nat} {now : Time}
  {c : Connection Key}

/-! ### The property and its condition -/

/-- The bit of every channel with a message in its queue is set. -/
def MaskCovers (c : Connection Key) : Prop :=
  ∀ i, i < c.numChannels → (c.ch i).queue ≠ [] → c.pendingMask.getLsbD i = true

/-- Every message of the queue would be handed out at this time, one after another:
the first is ready, and the timer that a dequeue clears does not hold back the rest. -/
def Channel.DrainsAt (now : Time) (q : Channel) : Prop :=
  q.queue ≠ [] → q.hasPending now = true ∧
    (2 ≤ q.queue.length → q.nagleThresholdSec ≤ 0 ∨ q.nagleThresholdSec ≤ now)

/-- No channel makes the scheduler wait, or the budget keeps it from being asked. -/
def DrainsAll (now : Time) (c : Connection Key) : Prop :=
  c.budget.canSend = true → ∀ i, i < c.numChannels → (c.ch i).DrainsAt now

/-- Where the event calls `server_send_pending`, it finds every channel drainable. -/
def SendsDrainable (c : Connection Key) : Time × SlotEvent Key Ct → Prop
  | (now, .send channel data flags) =>
    hasFlag flags sendNoDelay = true →
      ∀ c', c.queueMessage now channel data flags = some c' → DrainsAll now c'
  | (now, .flush) => DrainsAll now c.flushChannels
  | (now, .update dt visited) =>
    visited = true → c.timedOut now = false →
      DrainsAll now { c with budget := c.budget.refill dt c.books.congestion.sendRate }
  | _ => True

/-! ### What keeps the mask -/

theorem maskCovers_sameSchedule {c c' : Connection Key} (hs : SameSchedule c c')
    (h : MaskCovers c) : MaskCovers c' := by
  intro i hi hne
  rw [hs.pendingMask]
  apply h i
  · rw [← hs.numChannels]
    exact hi
  · rw [← hs.ch i]
    exact hne

theorem maskCovers_of_numChannels_zero (h : c.numChannels = 0) : MaskCovers c := by
  intro i hi
  rw [h] at hi
  exact absurd hi (Nat.not_lt_zero i)

/-- Replacing a channel by one with no more in its queue keeps the mask. -/
theorem maskCovers_setCh (h : MaskCovers c) {ch : Nat} {q : Channel}
    (hq : q.queue ≠ [] → (c.ch ch).queue ≠ []) : MaskCovers (c.setCh ch q) := by
  intro i hi hne
  rw [Connection.ch_setCh] at hne
  by_cases hsame : i % 4 = ch % 4
  · rw [if_pos hsame] at hne
    apply h i hi
    rw [c.ch_congr hsame]
    exact hq hne
  · rw [if_neg hsame] at hne
    exact h i hi hne

theorem maskCovers_markPending (now : Time) (h : MaskCovers c) {channel : Nat}
    (hlt : channel < c.numChannels) (q : Channel) : MaskCovers ((c.setCh channel q).markPending channel now) := by
  have hle := c.numChannels_le
  intro i hi hne
  have hi' : i < c.numChannels := hi
  show (c.pendingMask ||| maskBit channel).getLsbD i = true
  rw [BitVec.getLsbD_or, getLsbD_maskBit channel (by omega)]
  by_cases hsame : channel = i
  · simp [hsame]
  · have hmod : ¬ i % 4 = channel % 4 := by omega
    have hbit : c.pendingMask.getLsbD i = true := by
      apply h i hi'
      rw [ch_markPending, if_neg hmod] at hne
      exact hne
    rw [hbit, Bool.true_or]

theorem maskCovers_queueMessage (h : MaskCovers c) {channel : Nat} (hlt : channel < c.numChannels)
    {data : Bytes} {flags : SendFlags} {c' : Connection Key}
    (hq : c.queueMessage now channel data flags = some c') : MaskCovers c' := by
  simp only [Connection.queueMessage] at hq
  split at hq
  · exact absurd hq (by simp)
  · rename_i q _
    rw [Option.some.injEq] at hq
    rw [← hq]
    have hmarked := maskCovers_markPending now h hlt q
    by_cases hflag : hasFlag flags sendNoDelay = true
    · rw [if_pos hflag]
      exact maskCovers_setCh hmarked fun hne => hne
    · rw [if_neg hflag]
      exact hmarked

theorem maskCovers_sendState (h : MaskCovers c) (channel entityId : Nat) (data : Bytes) :
    MaskCovers (serverSendState now c channel entityId data).2 := by
  unfold serverSendState
  split
  · exact h
  split
  · exact h
  rename_i hlt
  split
  · exact h
  split
  · exact h
  · exact maskCovers_markPending now h (by omega) _

theorem maskCovers_flushChannels (h : MaskCovers c) : MaskCovers c.flushChannels := by
  obtain ⟨hnum, hmask, -, hch⟩ := flushChannels_eq c
  intro i hi hne
  rw [hmask]
  apply h i
  · rw [← hnum]
    exact hi
  · rw [← (hch i).queue]
    exact hne

/-! ### The send path -/

theorem drainsAt_dequeue {ch q : Channel} {msg : QueuedMessage} (h : ch.DrainsAt now)
    (hdeq : ch.dequeueSend = (some msg, q)) : q.DrainsAt now := by
  obtain ⟨rest, r, hqueue, hrest, rfl⟩ := Channel.dequeueSend_some hdeq
  intro hne
  have hlist : ({ ch with
      sendQueue := r, nagleReady := false, nagleAccumulateTime := 0 } : Channel).queue = rest :=
    hrest
  have hlong : 2 ≤ ch.queue.length := by
    rw [hlist] at hne
    have := List.length_pos_iff.mpr hne
    rw [hqueue, List.length_cons]
    omega
  have hready := (h (by rw [hqueue]; exact List.cons_ne_nil msg rest)).2 hlong
  have hsize : r.size ≠ 0 := fun hz => hne (Channel.queue_eq_nil_iff.mpr hz)
  refine ⟨?_, fun _ => hready⟩
  show (if r.size = 0 then false else if false then true
    else if ch.nagleThresholdSec ≤ 0 then true else decide (ch.nagleThresholdSec ≤ now - 0)) = true
  rw [if_neg hsize, if_neg Bool.false_ne_true, sub_zero]
  rcases hready with hoff | hpast
  · rw [if_pos hoff]
  · rw [decide_eq_true hpast, ite_self]

theorem maskCovers_nextChannelFast (h : MaskCovers c)
    (hdrain : ∀ i, i < c.numChannels → (c.ch i).DrainsAt now) :
    MaskCovers
      { c with
        pendingMask := (nextChannelFast c.cdata.channels c.numChannels now c.pendingMask).2 } := by
  have hle := c.numChannels_le
  intro i hi hne
  have hi' : i < c.numChannels := hi
  show (nextChannelFast c.cdata.channels c.numChannels now c.pendingMask).2.getLsbD i = true
  rw [nextChannelFast_mask (Nat.le_trans hle (by decide)) hi', Bool.and_eq_true]
  exact ⟨h i hi hne, (hdrain i hi hne).1⟩

/-- **A call of `server_send_pending` that can drain every queue keeps the mask.** -/
theorem maskCovers_sendPending (pid : Nat) (h : MaskCovers c) (hdrain : DrainsAll now c) :
    MaskCovers (serverSendPending C pid now c).1 := by
  by_cases hbudget : c.budget.canSend = true
  · -- The mask covers the queues and every queue still drains, round after round.
    refine (sendPending_keeps_schedule (serverPath C pid) now
      (fun c => MaskCovers c ∧ ∀ i, i < c.numChannels → (c.ch i).DrainsAt now)
      ?_ ?_ ?_ ⟨h, hdrain hbudget⟩).1
    · intro a b hs hp
      refine ⟨maskCovers_sameSchedule hs hp.1, fun i hi => ?_⟩
      rw [hs.ch i]
      exact hp.2 i (hs.numChannels ▸ hi)
    · intro a ch msg q hp hdeq
      obtain ⟨rest, r, hqueue, -, -⟩ := Channel.dequeueSend_some hdeq
      refine ⟨maskCovers_setCh hp.1 fun _ => ?_, fun i hi => ?_⟩
      · rw [hqueue]
        exact List.cons_ne_nil msg rest
      · rw [Connection.ch_setCh]
        by_cases hsame : i % 4 = ch % 4
        · rw [if_pos hsame]
          refine drainsAt_dequeue ?_ hdeq
          rw [← a.ch_congr hsame]
          exact hp.2 i hi
        · rw [if_neg hsame]
          exact hp.2 i hi
    · intro a hp
      exact ⟨maskCovers_nextChannelFast hp.1 hp.2, hp.2⟩
  · unfold serverSendPending sendPending
    rw [if_pos (by simp [hbudget])]
    exact h

/-! ### A slot's whole life -/

theorem keepalive_sameSchedule (C : Primitives Key Ct) (pid : Nat) (now : Time)
    (c : Connection Key) : SameSchedule c (serverSendKeepalive C pid now c).1 := by
  simp only [serverSendKeepalive]
  split
  · exact ⟨rfl, rfl, rfl⟩
  · exact ⟨rfl, rfl, rfl⟩

theorem maskCovers_accept (from_ : Address) (token : PrivateConnectToken Key) :
    MaskCovers (serverAccept C cfg now slot c from_ token).1 := by
  have hnew : MaskCovers (c.establish cfg now slot from_ token) := by
    intro i _ hne
    exact absurd (initSubsystems_ch _ cfg.channels now i).1 hne
  refine maskCovers_sameSchedule ?_ hnew
  simp only [serverAccept, serverSendAccept]
  split
  · exact ⟨rfl, rfl, rfl⟩
  · exact ⟨rfl, rfl, rfl⟩

theorem maskCovers_update (pid : Nat) (dt : Time) (h : MaskCovers c)
    (hdrain : DrainsAll now { c with budget := c.budget.refill dt c.books.congestion.sendRate }) :
    MaskCovers (serverUpdateConnection C pid now dt c).1 := by
  have hsent : MaskCovers (serverSendPending C pid now (c.refill now dt)).1 :=
    maskCovers_sendPending pid (maskCovers_sameSchedule ⟨rfl, rfl, rfl⟩ h) hdrain
  have htick : ∀ {c' : Connection Key}, MaskCovers c' → MaskCovers (c'.slowTick now) := by
    intro c' h'
    refine maskCovers_sameSchedule ?_ h'
    rw [slowTick_eq]
    exact ⟨rfl, rfl, rfl⟩
  simp only [serverUpdateConnection]
  split
  · exact htick h
  split
  · exact htick (maskCovers_sameSchedule (keepalive_sameSchedule C pid now _) hsent)
  · exact htick hsent

theorem maskCovers_slotStep (h : MaskCovers c) (ev : Time × SlotEvent Key Ct)
    (hev : SendsDrainable c ev) : MaskCovers (slotStep C cfg slot c ev).1 := by
  obtain ⟨now, ev⟩ := ev
  cases ev with
  | accept from_ token =>
    simp only [slotStep]
    split
    · exact h
    · exact maskCovers_accept from_ token
  | send channel data flags =>
    simp only [slotStep, serverSend]
    split
    · exact h
    split
    · exact h
    rename_i hlt
    cases hq : c.queueMessage now channel data flags with
    | none => exact h
    | some c' =>
      have hqueued := maskCovers_queueMessage h (by omega) hq
      by_cases hflag : hasFlag flags sendNoDelay = true
      · simp only [if_pos hflag]
        exact maskCovers_sendPending _ hqueued (hev hflag c' hq)
      · simp only [if_neg hflag]
        exact hqueued
  | sendState channel entityId data => exact maskCovers_sendState h channel entityId data
  | flush =>
    simp only [slotStep, serverFlush]
    split
    · exact h
    · exact maskCovers_sendPending _ (maskCovers_flushChannels h) hev
  | packet packet =>
    simp only [slotStep]
    split
    · exact h
    have hsame := handleDataPacket_sameSchedule C cfg.protocolId now c packet
    split
    · exact maskCovers_of_numChannels_zero rfl
    · rename_i hres
      rw [hres] at hsame
      exact maskCovers_sameSchedule hsame h
  | update dt visited =>
    simp only [slotStep]
    split
    · exact h
    split
    · exact maskCovers_of_numChannels_zero rfl
    rename_i htime
    split
    · rename_i hvisited
      exact maskCovers_update _ dt h (hev hvisited (Bool.eq_false_iff.mpr htime))
    · exact h

/--
**The mask never hides a queued message** in the life of a slot, whatever is accepted,
sent, flushed, received and updated at whatever times, as long as `server_send_pending`
finds no channel waiting for its Nagle timer; and the fast scheduler then picks what the
full one picks.
-/
theorem pendingMask_covers_when_drainable (C : Primitives Key Ct) (cfg : ServerConfig) (slot : Nat)
    (es : List (Time × SlotEvent Key Ct))
    (hes : Along (fun c ev => (slotStep C cfg slot c ev).1) SendsDrainable (.idle C) es) :
    let c := run (fun c ev => (slotStep C cfg slot c ev).1) (.idle C) es
    (∀ i, i < c.numChannels → (c.ch i).queue ≠ [] → c.pendingMask.getLsbD i = true) ∧
      ∀ now, (nextChannelFast c.cdata.channels c.numChannels now c.pendingMask).1
        = nextChannel c.cdata.channels c.numChannels now := by
  intro c
  have hcovers : MaskCovers c := run_invariant MaskCovers
    (fun _ ev h hev => maskCovers_slotStep h ev hev) (maskCovers_of_numChannels_zero rfl) hes
  refine ⟨hcovers, fun now => ?_⟩
  apply nextChannelFast_eq (Nat.le_trans c.numChannels_le (by decide))
  intro i hi hready
  exact hcovers i hi (Channel.hasPending_ne_nil hready)

/-- One client, and one channel that waits 10 ms for more. -/
def nagleConfig : ServerConfig where
  protocolId := 7
  maxClients := 1
  channels := [{ nagleMs := 10 }]

/-- A token for runs on concrete packets. -/
def toyToken : PrivateConnectToken Nat := ⟨5, 10, 1, 2, [], .replicate 256 0⟩

/-- A message sent once its timer has run out, and another one queued. -/
theorem pendingMask_covers_past_timer :
    let c := run (fun c ev => (slotStep toyCipher nagleConfig 0 c ev).1) (.idle toyCipher)
      [(1, .accept {} toyToken), (1, .send 0 [7] 0), (2, .update 1 true), (2, .send 0 [7] 0)]
    c.pendingMask.getLsbD 0 = true ∧
      (nextChannelFast c.cdata.channels c.numChannels 3 c.pendingMask).1
        = nextChannel c.cdata.channels c.numChannels 3 := by
  have hmain := pendingMask_covers_when_drainable toyCipher nagleConfig 0
    [(1, .accept {} toyToken), (1, .send 0 [7] 0), (2, .update 1 true), (2, .send 0 [7] 0)]
    ⟨trivial, fun h => absurd h (by decide), fun _ _ _ i hi _ => ?_,
      fun h => absurd h (by decide), trivial⟩
  · refine ⟨hmain.1 0 (by decide +kernel) ?_, hmain.2 3⟩
    exact List.ne_nil_of_length_pos (by decide +kernel)
  · have hi0 : i = 0 := Nat.lt_one_iff.mp hi
    subst hi0
    exact ⟨by decide +kernel, fun h => absurd h (by decide +kernel)⟩

/-- An update one millisecond after the send finds the timer running and clears the
bit.  The message is still queued, and a second later the full scheduler would send it. -/
theorem pendingMask_hides_waiting_message :
    let c := run (fun c ev => (slotStep toyCipher nagleConfig 0 c ev).1) (.idle toyCipher)
      [(1, .accept {} toyToken), (1, .send 0 [7] 0), (1001 / 1000, .update (1 / 1000) true)]
    0 < c.numChannels ∧ (c.ch 0).queue.length = 1 ∧ c.pendingMask.getLsbD 0 = false ∧
      (nextChannelFast c.cdata.channels c.numChannels 2 c.pendingMask).1 = none ∧
      nextChannel c.cdata.channels c.numChannels 2 = some 0 := by
  decide +kernel

end Netudp
