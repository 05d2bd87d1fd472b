/-
The timeout sweep.

The loop walks through the active list and releases the connections that have been silent
for too long.  A release puts the last slot of the list at the position the loop is at, and
the loop looks at that position again.  So a round either makes the list shorter or moves
on in it, nothing before the position is ever touched, and no connection is passed over or
looked at a second time.
-/
import Netudp.Proofs.Refills

namespace Netudp

open Lib

variable {Key Ct : Type} {C : Primitives Key Ct} {s : Server Key}

/-- The connection in the slot has been silent for too long. -/
def Server.expired (s : Server Key) (slot : Nat) : Bool :=
  (s.connections slot).timedOut s.currentTime

/-! ### A release -/

theorem SlotTable.release_connection (C : Primitives Key Ct) (h : SlotTable s) {slot i : Nat}
    (hi : i ≠ slot) : (s.release C slot).connections i = s.connections i := by
  rw [h.release_connections C slot, Function.update_of_ne hi]

/-- No other connection expires, or revives. -/
theorem SlotTable.release_expired (C : Primitives Key Ct) (h : SlotTable s) {slot i : Nat}
    (hi : i ≠ slot) : (s.release C slot).expired i = s.expired i := by
  simp only [Server.expired, h.release_connection C hi, (standing_release C s slot).clock.1]

theorem SlotTable.ne_of_mem_release (h : SlotTable s) {slot i : Nat}
    (hi : i ∈ (s.release C slot).activeSlots) : i ≠ slot :=
  ((h.forgotten slot).mem i |>.mp hi).1

/-! ### The loop -/

/-- What the sweep leaves of the server, and the calls it makes. -/
structure Swept (s after : Server Key) (calls : List (Nat × Int)) : Prop where
  table : SlotTable after
  remaining : after.activeSlots.Perm (s.activeSlots.filter (!s.expired ·))
  called : calls.Perm ((s.activeSlots.filter s.expired).map (·, -4))
  kept : ∀ i, i ∉ s.activeSlots.filter s.expired → after.connections i = s.connections i

/-- Once every active slot has been looked at, nothing is left to do. -/
theorem swept_done (h : SlotTable s) (hlive : ∀ i ∈ s.activeSlots, s.expired i = false) :
    Swept s s [] where
  table := h
  remaining := by
    rw [List.filter_eq_self.mpr fun i hi => by rw [hlive i hi, Bool.not_false]]
  called := by
    rw [List.filter_eq_nil_iff.mpr fun i hi => by simp [hlive i hi]]
    rfl
  kept _ _ := rfl

theorem Swept.release {slot : Nat} {after : Server Key} {calls : List (Nat × Int)}
    (h : SlotTable s) (hmem : slot ∈ s.activeSlots) (hslot : s.expired slot = true)
    (hrest : Swept (s.release C slot) after calls) : Swept s after ((slot, -4) :: calls) := by
  have hperm := h.release_perm C hmem
  have hexpired : (s.release C slot).activeSlots.filter (s.release C slot).expired =
      (s.release C slot).activeSlots.filter s.expired :=
    List.filter_congr fun i hi => h.release_expired C (h.ne_of_mem_release hi)
  have hlive : (s.release C slot).activeSlots.filter (!(s.release C slot).expired ·) =
      (s.release C slot).activeSlots.filter (!s.expired ·) :=
    List.filter_congr fun i hi => by rw [h.release_expired C (h.ne_of_mem_release hi)]
  have hgone : (s.activeSlots.filter s.expired).Perm
      (slot :: (s.release C slot).activeSlots.filter s.expired) := by
    have hfilter := hperm.filter s.expired
    rwa [List.filter_cons_of_pos hslot] at hfilter
  refine ⟨hrest.table, ?_, ?_, ?_⟩
  · have hfilter := hperm.filter (!s.expired ·)
    rw [List.filter_cons_of_neg (by simp [hslot]), ← hlive] at hfilter
    exact hrest.remaining.trans hfilter.symm
  · have hcalled := hrest.called
    rw [hexpired] at hcalled
    exact (hcalled.cons (slot, -4)).trans (hgone.map (·, (-4 : Int))).symm
  · intro i hi
    rw [hgone.mem_iff, List.mem_cons, not_or] at hi
    rw [hrest.kept i (by rw [hexpired]; exact hi.2), h.release_connection C hi.1]

/-- The sweep from a position up to which no connection has expired: with a round for every
position from there on, it comes to its end. -/
theorem timeoutSweep_swept (C : Primitives Key Ct) (fuel : Nat) :
    ∀ (a : Nat) (s : Server Key), SlotTable s → s.activeSlots.length ≤ a + fuel →
      (∀ i ∈ s.activeSlots.take a, s.expired i = false) →
      ∃ after calls, s.timeoutSweep C fuel a = some (after, calls) ∧ Swept s after calls := by
  induction fuel with
  | zero =>
    intro a s h hlen hlive
    rw [Nat.add_zero] at hlen
    rw [List.take_of_length_le hlen] at hlive
    refine ⟨s, [], ?_, swept_done h hlive⟩
    rw [Server.timeoutSweep, if_neg (by omega)]
  | succ fuel ih =>
    intro a s h hlen hlive
    cases hat : s.activeSlots[a]? with
    | none =>
      rw [List.take_of_length_le (List.getElem?_eq_none_iff.mp hat)] at hlive
      refine ⟨s, [], ?_, swept_done h hlive⟩
      simp only [Server.timeoutSweep, hat]
    | some slot =>
      have hmem := List.mem_of_getElem? hat
      cases hslot : s.expired slot with
      | true =>
        -- The position stays, and what is before it too.
        have hshort := h.release_length C hmem
        obtain ⟨after, calls, hsweep, hswept⟩ := ih a (s.release C slot) (h.release C slot)
          (by omega) (by
            rw [h.release_take C hat]
            intro i hi
            have hne : i ≠ slot := by
              intro heq
              rw [← heq, hlive i hi] at hslot
              exact Bool.false_ne_true hslot
            rw [h.release_expired C hne, hlive i hi])
        refine ⟨after, (slot, -4) :: calls, ?_, hswept.release h hmem hslot⟩
        have hlate : (s.connections slot).timedOut s.currentTime = true := hslot
        simp only [Server.timeoutSweep, hat, if_pos hlate, hsweep, Option.map_some]
      | false =>
        obtain ⟨after, calls, hsweep, hswept⟩ := ih (a + 1) s h (by omega) (by
          rw [List.take_add_one, hat]
          simpa using fun i hi => hi.elim (hlive i) (fun heq => heq ▸ hslot))
        refine ⟨after, calls, ?_, hswept⟩
        have hlate : ¬ (s.connections slot).timedOut s.currentTime = true := by
          rw [Bool.not_eq_true]
          exact hslot
        simp only [Server.timeoutSweep, hat, if_neg hlate, hsweep]

/-- The sweep with its callback leaves what the sweep without it does. -/
theorem timeoutSweep_eq_checkTimeouts (C : Primitives Key Ct) (fuel : Nat) :
    ∀ (a : Nat) (s after : Server Key) (calls : List (Nat × Int)),
      s.timeoutSweep C fuel a = some (after, calls) → s.checkTimeouts C fuel a = after := by
  induction fuel with
  | zero =>
    intro a s after calls hsweep
    rw [Server.timeoutSweep] at hsweep
    split at hsweep
    · simp at hsweep
    · simp only [Option.some.injEq, Prod.mk.injEq] at hsweep
      exact hsweep.1
  | succ fuel ih =>
    intro a s after calls hsweep
    rw [Server.checkTimeouts]
    rw [Server.timeoutSweep] at hsweep
    cases hat : s.activeSlots[a]? with
    | none =>
      simp only [hat, Option.some.injEq, Prod.mk.injEq] at hsweep
      exact hsweep.1
    | some slot =>
      simp only [hat] at hsweep ⊢
      split
      · rename_i hlate
        rw [if_pos hlate, Option.map_eq_some_iff] at hsweep
        obtain ⟨⟨after', calls'⟩, hsweep, heq⟩ := hsweep
        simp only [Prod.mk.injEq] at heq
        exact heq.1 ▸ ih a _ after' calls' hsweep
      · rename_i hlate
        rw [if_neg hlate] at hsweep
        exact ih (a + 1) s after calls hsweep

/-- **The sweep removes the expired connections and no others.**  From a state with a whole
slot table it ends, after at most one round for each active slot; it calls `on_disconnect`
once for each active connection that has been silent for longer than its timeout and for
nothing else; what is active afterwards is the rest, and the rest is as it was. -/
theorem timeout_sweep_removes_expired (C : Primitives Key Ct) (s : Server Key)
    (h : SlotTable s) :
    ∃ after calls, s.timeoutSweep C s.activeSlots.length 0 = some (after, calls) ∧
      after = s.checked C ∧ SlotTable after ∧
      (∀ i, (calls.map Prod.fst).count i =
        if (s.connections i).active = true ∧
          (s.connections i).timeoutSeconds < s.currentTime - (s.connections i).lastRecvTime
        then 1 else 0) ∧
      (∀ i, (after.connections i).active = true ↔ (s.connections i).active = true ∧
        ¬ (s.connections i).timeoutSeconds < s.currentTime - (s.connections i).lastRecvTime) ∧
      ∀ i, ¬ ((s.connections i).active = true ∧
          (s.connections i).timeoutSeconds < s.currentTime - (s.connections i).lastRecvTime) →
        after.connections i = s.connections i := by
  obtain ⟨after, calls, hsweep, hswept⟩ := timeoutSweep_swept C s.activeSlots.length 0 s h
    (by omega) (by simp)
  have hexpired : ∀ i, s.expired i = true ↔
      (s.connections i).timeoutSeconds < s.currentTime - (s.connections i).lastRecvTime := by
    simp [Server.expired, Connection.timedOut]
  refine ⟨after, calls, hsweep, (timeoutSweep_eq_checkTimeouts C _ 0 s after calls hsweep).symm,
    hswept.table, ?_, ?_, ?_⟩
  · intro i
    have hcalls : (calls.map Prod.fst).Perm (s.activeSlots.filter s.expired) := by
      simpa [Function.comp_def] using hswept.called.map Prod.fst
    rw [hcalls.count_eq, List.Nodup.count (h.index.nodup.filter _)]
    simp only [List.mem_filter, h.active, hexpired]
  · intro i
    rw [hswept.table.active, hswept.remaining.mem_iff, List.mem_filter, h.active, ← hexpired]
    simp
  · intro i hi
    refine hswept.kept i ?_
    rwa [List.mem_filter, hexpired, ← h.active]

/-- Two clients, of which the second comes ten seconds after the first. -/
def staggered : List (ServerEvent (Sealed Nat)) :=
  tickAt 1 [.dispatch toyAddress (.request (toyRequest 0))] ++
    tickAt 11 [.dispatch { toyAddress with port := 4001 } (.request (toyRequest 1))] ++
    [.beginUpdate 12]

/-- Eleven seconds after the first came, it is removed and the second stays. -/
theorem staggered_sweep :
    let s := Server.after toyCipher toyTokens toyServerConfig 0 staggered
    s.activeSlots = [0, 1] ∧ ∃ after calls,
      s.timeoutSweep toyCipher s.activeSlots.length 0 = some (after, calls) ∧
        (calls.map Prod.fst).count 0 = 1 ∧ (calls.map Prod.fst).count 1 = 0 ∧
        (after.connections 0).active = false ∧ after.connections 1 = s.connections 1 := by
  intro s
  have hlist : s.activeSlots = [0, 1] := by decide +kernel
  have hfirst : (s.connections 0).active = true ∧
      (s.connections 0).timeoutSeconds < s.currentTime - (s.connections 0).lastRecvTime := by
    decide +kernel
  have hsecond : ¬ ((s.connections 1).active = true ∧
      (s.connections 1).timeoutSeconds < s.currentTime - (s.connections 1).lastRecvTime) := by
    decide +kernel
  obtain ⟨after, calls, hsweep, -, -, hcalls, hactive, hkept⟩ :=
    timeout_sweep_removes_expired toyCipher s (tables_after toyCipher toyTokens toyServerConfig 0
      staggered).table
  refine ⟨hlist, after, calls, hsweep, ?_, ?_, ?_, hkept 1 hsecond⟩
  · rw [hcalls, if_pos hfirst]
  · rw [hcalls, if_neg hsecond]
  · rw [← Bool.not_eq_true, hactive]
    exact fun hstays => hstays.2 hfirst.2

end Netudp
