/-
The refills of the send budget.

An update refills the budget of each connection it does not pass over, and for the time
since the update before it.  It passes over a connection that has nothing to send, and with
pacing over all but one slice of them; the time of such an update is in no refill.  So a
refill makes up for the time since the one before it exactly when both were made by
consecutive updates.
-/
import Mathlib.Tactic.Linarith
import Netudp.Proofs.NonceReuse
import Netudp.Proofs.ServerTables

namespace Netudp

open Lib

variable {Key Ct : Type} {C : Primitives Key Ct} {T : TokenOps Key} {cfg : ServerConfig}
  {s : Server Key}

/-! ### What an update refills -/

/-- The fast path of an update: nothing is pending and no keepalive is due. -/
def Connection.idleAt (c : Connection Key) (time : Time) : Bool :=
  c.pendingMask = 0 && !decide (1 < time - c.lastSendTime)

namespace Server

/-- The server after the timeout check of an update. -/
def checked (C : Primitives Key Ct) (s : Server Key) : Server Key :=
  checkTimeouts C s.activeSlots.length 0 s

/-- The slots an update goes through. -/
def visitedSlots (cfg : ServerConfig) (s : Server Key) : List Nat :=
  let (start, count) := pacingSlice cfg.pacingSlices s.activeSlots.length s.pacingCurrentSlice
  (s.activeSlots.drop start).take count

/-- The slots it refills. -/
def refilledSlots (cfg : ServerConfig) (s : Server Key) : List Nat :=
  (s.visitedSlots cfg).filter fun slot => !(s.connections slot).idleAt s.currentTime

end Server

/-- What a refill for the time converts is below 2 ^ 31 and no more than can be subtracted
from the queued bits, which are an `int32_t`. -/
def QueuedBitsBudget.Fits (b : QueuedBitsBudget) (dt : Time) (rate : Nat) : Prop :=
  ((rate : ℚ) * 8 * dt).floor < 2 ^ 31 ∧ ((rate : ℚ) * 8 * dt).floor ≤ 2 ^ 31 + b.queuedBits ∧
    b.queuedBits < 2 ^ 31
deriving Decidable

theorem int32_eq_some {n : Int} (hlow : -2 ^ 31 ≤ n) (hhigh : n < 2 ^ 31) : int32 n = some n :=
  if_pos ⟨hlow, hhigh⟩

theorem QueuedBitsBudget.refill_queuedBits {b : QueuedBitsBudget} {dt : Time} (hdt : 0 ≤ dt)
    {rate : Nat} (hfits : b.Fits dt rate) :
    (b.refill dt rate).queuedBits =
      max (b.queuedBits - ((rate : ℚ) * 8 * dt).floor) (-b.burstBits) := by
  have hproduct : 0 ≤ (rate : ℚ) * 8 * dt := by positivity
  have hfloor : 0 ≤ ((rate : ℚ) * 8 * dt).floor := Rat.le_floor_iff.mpr (by simpa using hproduct)
  obtain ⟨hbits, hqueued, hsmall⟩ := hfits
  simp only [QueuedBitsBudget.refill, if_pos hproduct]
  rw [int32_eq_some (by omega) hbits, Option.getD_some, wrap32_eq (by omega) (by omega)]
  split
  · rename_i hlow
    exact (max_eq_right hlow.le).symm
  · rename_i hhigh
    exact (max_eq_left (not_lt.mp hhigh)).symm

/-! ### The clock -/

/-- Neither the time nor the time since the last update has changed. -/
def SameClock (s s' : Server Key) : Prop :=
  s'.currentTime = s.currentTime ∧ s'.dt = s.dt

theorem SameClock.trans {s s' s'' : Server Key} (h : SameClock s s') (h' : SameClock s' s'') :
    SameClock s s'' :=
  ⟨h'.1.trans h.1, h'.2.trans h.2⟩

/-- Only connections and tables have changed. -/
structure Standing (s s' : Server Key) : Prop where
  clock : SameClock s s'
  pacingCurrentSlice : s'.pacingCurrentSlice = s.pacingCurrentSlice

theorem Standing.refl (s : Server Key) : Standing s s := ⟨⟨rfl, rfl⟩, rfl⟩

theorem Standing.trans {s s' s'' : Server Key} (h : Standing s s') (h' : Standing s' s'') :
    Standing s s'' :=
  ⟨h.clock.trans h'.clock, h'.pacingCurrentSlice.trans h.pacingCurrentSlice⟩

theorem standing_deactivateSlot (s : Server Key) (slot : Nat) :
    Standing s (s.deactivateSlot slot) := by
  unfold Server.deactivateSlot
  split
  · exact .refl s
  · exact ⟨⟨rfl, rfl⟩, rfl⟩

theorem standing_release (C : Primitives Key Ct) (s : Server Key) (slot : Nat) :
    Standing s (s.release C slot) := by
  obtain ⟨hclock, hslice⟩ := standing_deactivateSlot { s with
    addressToSlot := (s.addressToSlot.remove fnv1a (s.connections slot).address).2 } slot
  exact ⟨hclock, hslice⟩

theorem standing_checkTimeouts (C : Primitives Key Ct) (fuel a : Nat) (s : Server Key) :
    Standing s (Server.checkTimeouts C fuel a s) :=
  checkTimeouts_rule (P := Standing s)
    (fun t slot ht _ => ht.trans (standing_release C t slot)) fuel a s (.refl s)

theorem standing_processSlots (slots : List Nat) (s : Server Key) :
    Standing s (Server.processSlots C cfg s slots).1 :=
  processSlots_rule (P := Standing s)
    (fun _ _ ht => ⟨ht.clock, ht.pacingCurrentSlice⟩) slots s (.refl s)

theorem standing_dispatchPacket (s : Server Key) (from_ : Address) (packet : Incoming Ct) :
    Standing s (s.dispatchPacket C T cfg from_ packet).1 := by
  cases packet with
  | request packet =>
    simp only [Server.dispatchPacket, Server.handleConnectionRequest]
    split
    · split
      · exact .refl s
      · split
        · exact ⟨⟨rfl, rfl⟩, rfl⟩
        · exact ⟨⟨rfl, rfl⟩, rfl⟩
    · exact .refl s
  | data wireSlot packet =>
    simp only [Server.dispatchPacket, Server.handleDataPacket]
    split
    · split
      · exact .refl s
      · split
        · obtain ⟨hclock, hslice⟩ := standing_release C (s.setConnection _ _) _
          exact ⟨hclock, hslice⟩
        · exact ⟨⟨rfl, rfl⟩, rfl⟩
    · exact .refl s

theorem standing_onConnection (s : Server Key) (slot : Nat)
    (call : Connection Key → Connection Key × List (SendAction Key Ct)) :
    Standing s (s.onConnection cfg slot call).1 := by
  simp only [Server.onConnection]
  split
  · exact .refl s
  · exact ⟨⟨rfl, rfl⟩, rfl⟩

theorem sameClock_finishUpdate (s : Server Key) : SameClock s (s.finishUpdate C cfg).1 :=
  (standing_checkTimeouts C _ 0 s).clock.trans (standing_processSlots _ _).clock

/-! ### An update -/

theorem processSlots_connection (C : Primitives Key Ct) (cfg : ServerConfig) (slots : List Nat) :
    ∀ s : Server Key, slots.Nodup → ∀ slot,
      (Server.processSlots C cfg s slots).1.connections slot =
        if slot ∈ slots then
          (serverUpdateConnection C cfg.protocolId s.currentTime s.dt (s.connections slot)).1
        else s.connections slot := by
  induction slots with
  | nil => simp [Server.processSlots]
  | cons first rest ih =>
    intro s hnodup slot
    obtain ⟨hfirst, hrest⟩ := List.nodup_cons.mp hnodup
    simp only [Server.processSlots]
    rw [ih _ hrest slot]
    by_cases hslot : slot = first
    · subst hslot
      rw [if_neg hfirst, if_pos List.mem_cons_self, Server.setConnection_self]
    · rw [Server.setConnection_of_ne s hslot]
      simp only [List.mem_cons, hslot, false_or]
      rfl

/-- **What the refills are in an update.**  Each connection it goes through is refilled and
sends, or is left, on the fast path, to the slow tick. -/
theorem finishUpdate_connection (h : Tables cfg s) {slot : Nat}
    (hslot : slot ∈ (s.checked C).visitedSlots cfg) :
    let c := (s.checked C).connections slot
    let sent := (serverSendPending C cfg.protocolId s.currentTime
      (c.refill s.currentTime s.dt)).1
    (s.finishUpdate C cfg).1.connections slot =
      Connection.slowTick (if slot ∉ (s.checked C).refilledSlots cfg then c
        else if 1 < s.currentTime - c.lastSendTime then
          (serverSendKeepalive C cfg.protocolId s.currentTime sent).1
        else sent) s.currentTime := by
  intro c sent
  have hchecked : Tables cfg (s.checked C) :=
    h.moves (checkTimeouts_moves (C := C) s.activeSlots.length 0 h)
  have hnodup : ((s.checked C).visitedSlots cfg).Nodup :=
    hchecked.table.index.nodup.sublist ((List.take_sublist _ _).trans (List.drop_sublist _ _))
  obtain ⟨htime, hdt⟩ : SameClock s (s.checked C) := (standing_checkTimeouts C _ 0 s).clock
  have hidle : slot ∉ (s.checked C).refilledSlots cfg ↔
      c.pendingMask = 0 ∧ decide (1 < s.currentTime - c.lastSendTime) = false := by
    simp [Server.refilledSlots, Connection.idleAt, hslot, htime, c]
  have hprocessed := processSlots_connection C cfg _ (s.checked C) hnodup slot
  rw [if_pos hslot, htime, hdt] at hprocessed
  refine hprocessed.trans ?_
  simp only [hidle, serverUpdateConnection]
  split
  · rfl
  · simp only [decide_eq_true_eq]
    split
    · rfl
    · rfl

/-! ### Runs -/

/-- A refill of the connection in a slot. -/
structure Refill where
  slot : Nat
  time : Time
  /-- The time of the slot's refill before this one, and how many updates began since. -/
  last : Option (Time × Nat)
  sendRate : Nat
  before : QueuedBitsBudget
  after : QueuedBitsBudget

/-- A server with the refills it has made, and for each slot the last one's time and how many
updates began since. -/
structure RefillRun (Key : Type) where
  server : Server Key
  last : Nat → Option (Time × Nat)
  refills : List Refill

/-- A server just started. -/
def RefillRun.start (C : Primitives Key Ct) (cfg : ServerConfig) (time : Time) : RefillRun Key where
  server := .start C cfg time
  last := fun _ => none
  refills := []

def refillStep (C : Primitives Key Ct) (T : TokenOps Key) (cfg : ServerConfig) (r : RefillRun Key)
    (ev : ServerEvent Ct) : RefillRun Key :=
  let server := (serverStep C T cfg r.server ev).1
  match ev with
  | .beginUpdate _ =>
    { r with
      server := server
      last := fun slot => (r.last slot).map fun (time, updates) => (time, updates + 1) }
  | .finishUpdate =>
    let s := r.server.checked C
    { server := server
      last := fun slot =>
        if slot ∈ s.refilledSlots cfg then some (s.currentTime, 0) else r.last slot
      refills := r.refills ++ (s.refilledSlots cfg).map fun slot =>
        { slot := slot
          time := s.currentTime
          last := r.last slot
          sendRate := (s.connections slot).books.congestion.sendRate
          before := (s.connections slot).budget
          after := ((s.connections slot).refill s.currentTime s.dt).budget } }
  | _ => { r with server := server }

/-- The bits of `elapsed` seconds are taken from the queued ones, down to the burst. -/
def Refill.Covers (e : Refill) (elapsed : Time) : Prop :=
  e.after.queuedBits =
    max (e.before.queuedBits - ((e.sendRate : ℚ) * 8 * elapsed).floor) (-e.before.burstBits)
deriving Decidable

/-- No update is called with a time before the last one's. -/
def TimeGoesOn (r : RefillRun Key) : ServerEvent Ct → Prop
  | .beginUpdate time => r.server.currentTime ≤ time
  | _ => True

instance (r : RefillRun Key) : (ev : ServerEvent Ct) → Decidable (TimeGoesOn r ev)
  | .beginUpdate _ => inferInstanceAs (Decidable (_ ≤ _))
  | .dispatch _ _ | .finishUpdate | .send _ _ _ _ | .sendState _ _ _ _ | .flush _ => isTrue trivial

/-- The clock agrees with the refills. -/
structure Refilled (r : RefillRun Key) : Prop where
  now : ∀ slot time, r.last slot = some (time, 0) → r.server.currentTime = time
  next : ∀ slot time, r.last slot = some (time, 1) →
    r.server.dt = r.server.currentTime - time ∧ time ≤ r.server.currentTime
  covers : ∀ e ∈ r.refills, ∀ since, e.last = some (since, 1) →
    e.before.Fits (e.time - since) e.sendRate → e.Covers (e.time - since)

/-- An event that moves no clock and makes no refill. -/
theorem Refilled.same {r : RefillRun Key} (h : Refilled r) {server : Server Key}
    (hclock : SameClock r.server server) : Refilled { r with server := server } := by
  obtain ⟨htime, hdt⟩ := hclock
  refine ⟨?_, ?_, h.covers⟩
  · intro slot time hlast
    exact htime.trans (h.now slot time hlast)
  · intro slot time hlast
    show server.dt = server.currentTime - time ∧ time ≤ server.currentTime
    rw [htime, hdt]
    exact h.next slot time hlast

theorem refilled_step {r : RefillRun Key} {ev : ServerEvent Ct} (h : Refilled r)
    (hgoes : TimeGoesOn r ev) : Refilled (refillStep C T cfg r ev) := by
  cases ev with
  | beginUpdate time =>
    refine ⟨?_, ?_, h.covers⟩
    · intro slot last hlast
      simp [refillStep] at hlast
    · intro slot last hlast
      -- One update has begun since, this one, so the clock stood at the last refill.
      have hbefore : r.last slot = some (last, 0) := by
        simpa [refillStep] using hlast
      have hnow := h.now slot last hbefore
      subst hnow
      exact ⟨rfl, hgoes⟩
  | finishUpdate =>
    obtain ⟨htime, hdt⟩ : SameClock r.server (r.server.checked C) :=
      (standing_checkTimeouts C _ 0 r.server).clock
    have hclock : SameClock r.server (serverStep C T cfg r.server .finishUpdate).1 :=
      sameClock_finishUpdate r.server
    have hsame := h.same hclock
    refine ⟨?_, ?_, ?_⟩
    · intro slot last hlast
      simp only [refillStep] at hlast
      split at hlast
      · simp only [Option.some.injEq, Prod.mk.injEq, and_true] at hlast
        rw [← hlast, htime]
        exact hclock.1
      · exact hsame.now slot last hlast
    · intro slot last hlast
      simp only [refillStep] at hlast
      split at hlast
      · simp at hlast
      · exact hsame.next slot last hlast
    · intro e he since hlast hfits
      obtain he | he := List.mem_append.mp he
      · exact h.covers e he since hlast hfits
      · obtain ⟨slot, -, rfl⟩ := List.mem_map.mp he
        obtain ⟨helapsed, hsince⟩ := h.next slot since hlast
        simp only [Refill.Covers, Connection.refill, htime, hdt, helapsed] at hfits ⊢
        exact QueuedBitsBudget.refill_queuedBits (sub_nonneg.mpr hsince) hfits
  | dispatch from_ packet => exact h.same (standing_dispatchPacket r.server from_ packet).clock
  | send slot channel data flags => exact h.same (standing_onConnection r.server slot _).clock
  | sendState slot channel entityId data =>
    exact h.same (standing_onConnection r.server slot _).clock
  | flush slot => exact h.same (standing_onConnection r.server slot _).clock

/-- **A refill makes up for the time since the one before it**, if no update between the two
passed the connection over and its bits fit 32. -/
theorem refill_covers_elapsed_time (C : Primitives Key Ct) (T : TokenOps Key) (cfg : ServerConfig)
    (time : Time) (es : List (ServerEvent Ct))
    (htime : Along (refillStep C T cfg) TimeGoesOn (.start C cfg time) es) :
    ∀ e ∈ (run (refillStep C T cfg) (.start C cfg time) es).refills, ∀ since,
      e.last = some (since, 1) → e.before.Fits (e.time - since) e.sendRate →
        e.Covers (e.time - since) := by
  have hstart : Refilled (RefillRun.start C cfg time) :=
    ⟨fun _ _ => nofun, fun _ _ => nofun, nofun⟩
  exact (run_invariant Refilled (fun r ev h hgoes => refilled_step h hgoes) hstart htime).covers

/-- An update. -/
def tickAt (time : Time) (packets : List (ServerEvent (Sealed Nat))) :
    List (ServerEvent (Sealed Nat)) :=
  .beginUpdate time :: packets ++ [.finishUpdate]

/-- A client connects, and each of the next two updates has a message for it. -/
def oftenBusy : List (ServerEvent (Sealed Nat)) :=
  tickAt (1 / 64) [.dispatch toyAddress (.request (toyRequest 0))] ++
    .send 0 0 [1] 0 :: tickAt (2 / 64) [] ++ .send 0 0 [2] 0 :: tickAt (3 / 64) []

/-- The same with an update between the two at which there is nothing to send. -/
def onceIdle : List (ServerEvent (Sealed Nat)) :=
  tickAt (1 / 64) [.dispatch toyAddress (.request (toyRequest 0))] ++
    .send 0 0 [1] 0 :: tickAt (2 / 64) [] ++ tickAt (3 / 64) [] ++
    .send 0 0 [2] 0 :: tickAt (4 / 64) []

/-- Two refills in consecutive updates: the second is for the 32768 bits of a 64th of a
second. -/
theorem consecutive_refill_covers :
    ∃ e ∈ (run (refillStep toyCipher toyTokens toyServerConfig)
        (.start toyCipher toyServerConfig 0) oftenBusy).refills,
      e.last = some (2 / 64, 1) ∧ e.before.queuedBits = -32528 ∧ e.Covers (1 / 64) := by
  have hsecond : ∃ e ∈ (run (refillStep toyCipher toyTokens toyServerConfig)
        (.start toyCipher toyServerConfig 0) oftenBusy).refills,
      e.last = some (2 / 64, 1) ∧ e.before.queuedBits = -32528 ∧
        e.before.Fits (e.time - 2 / 64) e.sendRate ∧ e.time = 3 / 64 := by
    decide +kernel
  obtain ⟨e, he, hlast, hbefore, hfits, htime⟩ := hsecond
  refine ⟨e, he, hlast, hbefore, ?_⟩
  have hcovers := refill_covers_elapsed_time toyCipher toyTokens toyServerConfig 0 oftenBusy
    (by decide +kernel) e he (2 / 64) hlast hfits
  have helapsed : (3 / 64 : Time) - 2 / 64 = 1 / 64 := by norm_num
  rw [htime, helapsed] at hcovers
  exact hcovers

/-- With an idle update between them the second refill, which is a 32nd of a second after the
first, is for a 64th again. -/
theorem idle_time_is_not_refilled :
    let r := run (refillStep toyCipher toyTokens toyServerConfig)
      (.start toyCipher toyServerConfig 0) onceIdle
    Along (refillStep toyCipher toyTokens toyServerConfig) TimeGoesOn
        (.start toyCipher toyServerConfig 0) onceIdle ∧
      (r.server.connections 0).books.congestion.sendRate = defaultMaxRate ∧
      ∃ e ∈ r.refills, e.slot = 0 ∧ e.last = some (2 / 64, 2) ∧ e.time = 4 / 64 ∧
        e.sendRate = defaultMaxRate ∧ e.before.queuedBits = -32528 ∧
        e.after.queuedBits = -32528 - 32768 ∧ ¬ e.Covers (e.time - 2 / 64) := by
  decide +kernel

end Netudp
