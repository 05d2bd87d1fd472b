/-
What the send loop touches.

`sendPending_keeps` is the rule for a whole call: what each part of the loop keeps, the
call keeps.  Between asking the scheduler and taking a message out of a queue, everything
the loop does leaves the channels and the pending mask alone, so a property of those
survives a call when the scheduler and a dequeue keep it.
-/
import Netudp.Connection.SendPending
import Netudp.Proofs.Channel

namespace Netudp

open Lib

variable {Key Ct : Type} {S : SendPath Key Ct} {now : Time}

/-- The parts of a connection the scheduler reads. -/
structure SameSchedule (c c' : Connection Key) : Prop where
  channels : c'.cdata.channels = c.cdata.channels
  pendingMask : c'.pendingMask = c.pendingMask
  numChannels : c'.numChannels = c.numChannels

theorem SameSchedule.refl (c : Connection Key) : SameSchedule c c := ⟨rfl, rfl, rfl⟩

theorem SameSchedule.trans {a b c : Connection Key} (h : SameSchedule a b)
    (h' : SameSchedule b c) : SameSchedule a c :=
  ⟨h'.channels.trans h.channels, h'.pendingMask.trans h.pendingMask,
    h'.numChannels.trans h.numChannels⟩

theorem SameSchedule.ch {c c' : Connection Key} (h : SameSchedule c c') (i : Nat) :
    c'.ch i = c.ch i := by
  unfold Connection.ch
  rw [h.channels]

theorem initSubsystems_ch (c : Connection Key) (configs : List ChannelConfig) (time : Time)
    (i : Nat) : ((c.initSubsystems configs time).ch i).queue = [] ∧
      ((c.initSubsystems configs time).ch i).sendSeq = 0 := by
  show (((List.range (min configs.length 4)).foldl
      (fun (t : Channels) i => t.set i ((t.get i).init (configs.getD i {}))) (.fill {})).get i).queue
        = [] ∧
    (((List.range (min configs.length 4)).foldl
      (fun (t : Channels) i => t.set i ((t.get i).init (configs.getD i {}))) (.fill {})).get i).sendSeq
        = 0
  have hfill : ∀ j, ((Table.fill {} : Channels).get j).queue = [] ∧
      ((Table.fill {} : Channels).get j).sendSeq = 0 := fun j => ⟨rfl, rfl⟩
  generalize (Table.fill {} : Channels) = t at hfill
  generalize List.range (min configs.length 4) = l
  induction l generalizing t with
  | nil => exact hfill i
  | cons j rest ih =>
    rw [List.foldl_cons]
    apply ih
    intro k
    rw [Table.get_set]
    by_cases hsame : k % 4 = j % 4
    · rw [if_pos hsame]
      exact ⟨rfl, rfl⟩
    · rw [if_neg hsame]
      exact hfill k

/-! ### The parts of a round -/

/-- The packing an outcome carries. -/
def Packing.Outcome.packing : Packing.Outcome Key Ct → Packing Key Ct
  | .proceed p => p
  | .leave p => p
  | .stop p => p

theorem flush_sameSchedule (S : SendPath Key Ct) (now : Time) (p : Packing Key Ct) :
    SameSchedule p.conn (p.flush S now).2.conn := by
  simp only [Packing.flush]
  split
  · exact ⟨rfl, rfl, rfl⟩
  · exact ⟨rfl, rfl, rfl⟩

/-- Each part of writing a message into the packet keeps the property. -/
structure PackKeeps (S : SendPath Key Ct) (now : Time) (P : Packing Key Ct → Prop) : Prop where
  flush : ∀ p, P p → P (p.flush S now).2
  startPacket : ∀ p, P p → P (p.startPacket now)
  record : ∀ p ch data, P p → P (p.record now ch data)
  append : ∀ p frame, P p → P (p.append frame).2

/-- So do taking a message and asking the scheduler. -/
structure LoopKeeps (S : SendPath Key Ct) (now : Time) (P : Packing Key Ct → Prop) : Prop
    extends PackKeeps S now P where
  taken : ∀ p ch msg q, (p.conn.ch ch).dequeueSend = (some msg, q) → P p → P (p.taken ch msg q)
  schedule : ∀ p, P p → P (p.schedule S now).2

section Pack

variable {P : Packing Key Ct → Prop}

theorem makeRoom_keeps (hP : PackKeeps S now P) (p : Packing Key Ct) (needed : Nat) (h : P p) :
    P (p.makeRoom S now needed).packing := by
  unfold Packing.makeRoom
  split
  · have hflush := hP.flush p h
    cases hres : p.flush S now with
    | mk ok p' =>
      rw [hres] at hflush
      cases ok with
      | false => exact hflush
      | true =>
        simp only
        split
        · exact hP.startPacket p' hflush
        · exact hflush
  · exact h

theorem addFrame_keeps (hP : PackKeeps S now P) (p : Packing Key Ct) (ch : Nat)
    (msg : QueuedMessage) (h : P p) : P (p.addFrame now ch msg).2 := by
  simp only [Packing.addFrame]
  split
  · exact hP.append _ _ (hP.record p ch msg.data h)
  · exact hP.append p _ h

theorem pack_keeps (hP : PackKeeps S now P) (p : Packing Key Ct) (ch : Nat)
    (msg : QueuedMessage) (h : P p) : P (p.pack S now ch msg).packing := by
  have hroom := makeRoom_keeps hP p (p.frameNeeded ch msg) h
  unfold Packing.pack
  cases hout : p.makeRoom S now (p.frameNeeded ch msg) with
  | leave p' => rw [hout] at hroom; exact hroom
  | stop p' => rw [hout] at hroom; exact hroom
  | proceed p' =>
    rw [hout] at hroom
    have hframe := addFrame_keeps hP p' ch msg hroom
    simp only
    cases hadd : p'.addFrame now ch msg with
    | mk ok p'' =>
      rw [hadd] at hframe
      cases ok with
      | false => exact hframe
      | true => exact hframe

end Pack

theorem packKeeps_sameSchedule (S : SendPath Key Ct) (now : Time) (c : Connection Key) :
    PackKeeps S now fun p => SameSchedule c p.conn where
  flush p h := h.trans (flush_sameSchedule S now p)
  startPacket _ h := h
  record p ch data h := by
    refine h.trans ?_
    simp only [Packing.record]
    split
    · exact SameSchedule.refl _
    · exact ⟨rfl, rfl, rfl⟩
  append p frame h := by
    cases frame with
    | none => exact h
    | some bytes => exact h

theorem pack_sameSchedule (S : SendPath Key Ct) (now : Time) (p : Packing Key Ct) (ch : Nat)
    (msg : QueuedMessage) : SameSchedule p.conn (p.pack S now ch msg).packing.conn :=
  pack_keeps (packKeeps_sameSchedule S now p.conn) p ch msg (SameSchedule.refl _)

section Round

variable {p : Packing Key Ct} {ch : Nat} {msg : QueuedMessage} {q : Channel}

theorem round_of_none (h : (p.conn.ch ch).dequeueSend = (none, q)) :
    p.round S now ch = .proceed p := by
  simp only [Packing.round, Packing.dequeue, h]

theorem round_of_some (h : (p.conn.ch ch).dequeueSend = (some msg, q)) :
    p.round S now ch = (p.taken ch msg q).pack S now ch msg := by
  simp only [Packing.round, Packing.dequeue, h]

theorem loop_proceed {p' : Packing Key Ct} (h : p.round S now ch = .proceed p') (fuel : Nat) :
    Packing.loop S now (fuel + 1) (some ch) p
      = Packing.loop S now fuel (p'.schedule S now).1 (p'.schedule S now).2 := by
  rw [Packing.loop, h]

end Round

/-! ### A whole call -/

section Keeps

variable {P : Packing Key Ct → Prop}

theorem round_keeps (hP : LoopKeeps S now P) (p : Packing Key Ct) (ch : Nat) (h : P p) :
    P (p.round S now ch).packing := by
  cases hdeq : (p.conn.ch ch).dequeueSend with
  | mk res q =>
    cases res with
    | none => rw [round_of_none hdeq]; exact h
    | some msg =>
      rw [round_of_some hdeq]
      exact pack_keeps hP.toPackKeeps _ ch msg (hP.taken p ch msg q hdeq h)

theorem loop_keeps (hP : LoopKeeps S now P) :
    ∀ (fuel : Nat) (next : Option Nat) (p : Packing Key Ct), P p →
      P (Packing.loop S now fuel next p).2 := by
  intro fuel
  induction fuel with
  | zero => intro next p h; exact h
  | succ fuel ih =>
    intro next p h
    cases next with
    | none => exact h
    | some ch =>
      have hround := round_keeps hP p ch h
      unfold Packing.loop
      cases hout : p.round S now ch with
      | leave p' => rw [hout] at hround; exact hround
      | stop p' => rw [hout] at hround; exact hround
      | proceed p' =>
        rw [hout] at hround
        exact ih _ _ (hP.schedule p' hround)

/-- **What every part of the loop keeps, a call of the send path keeps.** -/
theorem sendPending_keeps (hP : LoopKeeps S now P) (c : Connection Key)
    (h : P ⟨c, [], 0, []⟩) :
    ∃ p, P p ∧ sendPending S now c = (p.conn, p.actions) := by
  unfold sendPending
  split
  · exact ⟨_, h, rfl⟩
  · simp only
    have hloop := loop_keeps hP (c.queued + 1)
      (((⟨c, [], 0, []⟩ : Packing Key Ct).startPacket now).schedule S now).1
      (((⟨c, [], 0, []⟩ : Packing Key Ct).startPacket now).schedule S now).2
      (hP.schedule _ (hP.startPacket _ h))
    split
    · exact ⟨_, hP.flush _ hloop, rfl⟩
    · exact ⟨_, hloop, rfl⟩

/-- A property of the schedule needs the scheduler and the dequeue to keep it. -/
theorem sendPending_keeps_schedule (S : SendPath Key Ct) (now : Time) (P : Connection Key → Prop)
    (hsame : ∀ c c', SameSchedule c c' → P c → P c')
    (hdequeue : ∀ c ch msg q, P c → (c.ch ch).dequeueSend = (some msg, q) → P (c.setCh ch q))
    (hnext : ∀ c, P c → P (S.next now c).2) {c : Connection Key} (h : P c) :
    P (sendPending S now c).1 := by
  have hpack := packKeeps_sameSchedule S now
  obtain ⟨p, hp, heq⟩ := sendPending_keeps (P := fun p => P p.conn)
    { flush := fun p hp => hsame _ _ ((hpack p.conn).flush p (SameSchedule.refl _)) hp
      startPacket := fun _ hp => hp
      record := fun p ch data hp =>
        hsame _ _ ((hpack p.conn).record p ch data (SameSchedule.refl _)) hp
      append := fun p frame hp =>
        hsame _ _ ((hpack p.conn).append p frame (SameSchedule.refl _)) hp
      taken := fun p ch msg q hdeq hp => hdequeue _ ch msg q hp hdeq
      schedule := fun p hp => hnext _ hp } c h
  rw [heq]
  exact hp

end Keeps

end Netudp
