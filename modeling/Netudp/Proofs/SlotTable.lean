/-
The slot table of the server.

The active list, its index, the free stack and the `active` flags of the connections are
four accounts of one thing, and every operation on slots keeps them in agreement: taking
a slot off the free stack, giving one back, and changing a connection in place.
-/
import Netudp.Lib.IndexedList
import Netudp.Server.Server

namespace Netudp

open Lib

variable {Key Ct : Type}

/-- The active list, its index, the free stack and the connections agree. -/
structure SlotTable (s : Server Key) : Prop where
  index : Indexes s.slotToActive s.activeSlots
  active : ∀ i, (s.connections i).active = true ↔ i ∈ s.activeSlots
  free : ∀ i ∈ s.freeSlots, i ∉ s.activeSlots
  freeNodup : s.freeSlots.Nodup

theorem slotTable_start (C : Primitives Key Ct) (cfg : ServerConfig) (time : Time) :
    SlotTable (Server.start C cfg time) where
  index a p := by simp [Server.start]
  active i := by simp [Server.start, Connection.idle]
  free i _ := by simp [Server.start]
  freeNodup := List.nodup_range

namespace SlotTable

variable {s : Server Key}

theorem congr (h : SlotTable s) {s' : Server Key} (hc : s'.connections = s.connections)
    (ha : s'.activeSlots = s.activeSlots) (hf : s'.freeSlots = s.freeSlots)
    (hi : s'.slotToActive = s.slotToActive) : SlotTable s' where
  index := by rw [hi, ha]; exact h.index
  active i := by rw [hc, ha]; exact h.active i
  free i hmem := by rw [ha]; exact h.free i (hf ▸ hmem)
  freeNodup := by rw [hf]; exact h.freeNodup

theorem setConnection (h : SlotTable s) {slot : Nat} {c : Connection Key}
    (hc : c.active = (s.connections slot).active) : SlotTable (s.setConnection slot c) where
  index := h.index
  active i := by
    by_cases hi : i = slot
    · subst hi
      rw [Server.setConnection_self, hc]
      exact h.active i
    · rw [Server.setConnection_of_ne s hi]
      exact h.active i
  free := h.free
  freeNodup := h.freeNodup

/-- The slot on top of the free stack, with an active connection put in it. -/
theorem activateSlot (h : SlotTable s) {slot : Nat} {rest : List Nat}
    (hfree : s.freeSlots = slot :: rest) (from_ : Address) {c : Connection Key}
    (hc : c.active = true) : SlotTable ((s.activateSlot from_ slot).setConnection slot c) := by
  have hidle : slot ∉ s.activeSlots := h.free slot (by rw [hfree]; exact List.mem_cons_self)
  have hnodup := h.freeNodup
  rw [hfree, List.nodup_cons] at hnodup
  refine ⟨h.index.push hidle, ?_, ?_, ?_⟩
  · intro i
    by_cases hi : i = slot
    · subst hi
      simp [Server.setConnection, Server.activateSlot, hc]
    · simp [Server.setConnection, Server.activateSlot, h.active, hi]
  · intro i hmem
    simp only [Server.setConnection, Server.activateSlot, hfree, List.tail_cons] at hmem
    have hne : i ≠ slot := by
      rintro rfl
      exact hnodup.1 hmem
    have hold := h.free i (by rw [hfree]; exact List.mem_cons_of_mem _ hmem)
    simp [Server.setConnection, Server.activateSlot, hold, hne]
  · simpa only [Server.setConnection, Server.activateSlot, hfree, List.tail_cons] using hnodup.2

/-- The slot has left the active list, and every other one is still in it. -/
structure Deactivated (s : Server Key) (slot : Nat) (s' : Server Key) : Prop where
  index : Indexes s'.slotToActive s'.activeSlots
  mem : ∀ i, i ∈ s'.activeSlots ↔ i ≠ slot ∧ i ∈ s.activeSlots
  free : ∀ i ∈ s'.freeSlots, i = slot ∨ i ∈ s.freeSlots
  freeNodup : s'.freeSlots.Nodup
  connections : s'.connections = s.connections

theorem deactivateSlot_eq {slot pos : Nat} (hpos : s.slotToActive slot = some pos) :
    s.deactivateSlot slot = { s with
      activeSlots := (swapOut 0 s.activeSlots s.slotToActive slot pos).1
      slotToActive := (swapOut 0 s.activeSlots s.slotToActive slot pos).2
      freeSlots := slot :: s.freeSlots } := by
  simp only [Server.deactivateSlot, hpos, swapOut]

theorem deactivateSlot (h : SlotTable s) (slot : Nat) :
    Deactivated s slot (s.deactivateSlot slot) := by
  cases hpos : s.slotToActive slot with
  | none =>
    have hidle : slot ∉ s.activeSlots := h.index.eq_none_iff.mp hpos
    have heq : s.deactivateSlot slot = s := by simp only [Server.deactivateSlot, hpos]
    rw [heq]
    refine ⟨h.index, ?_, fun i hi => Or.inr hi, h.freeNodup, rfl⟩
    intro i
    constructor
    · intro hi
      refine ⟨?_, hi⟩
      rintro rfl
      exact hidle hi
    · exact fun hi => hi.2
  | some pos =>
    have hat : s.activeSlots[pos]? = some slot := (h.index slot pos).mp hpos
    obtain ⟨hindex, hmem⟩ := h.index.swapOut 0 hpos
    rw [deactivateSlot_eq hpos]
    refine ⟨hindex, hmem, fun i hi => List.mem_cons.mp hi, ?_, rfl⟩
    refine List.nodup_cons.mpr ⟨?_, h.freeNodup⟩
    intro hfree
    exact h.free slot hfree (List.mem_of_getElem? hat)

/-- The first half of a release: the address is forgotten and the slot deactivated. -/
theorem forgotten (h : SlotTable s) (slot : Nat) :
    Deactivated s slot (Server.deactivateSlot { s with
      addressToSlot := (s.addressToSlot.remove fnv1a (s.connections slot).address).2 } slot) := by
  have hs : SlotTable { s with
      addressToSlot := (s.addressToSlot.remove fnv1a (s.connections slot).address).2 } :=
    h.congr rfl rfl rfl rfl
  obtain ⟨hindex, hmem, hfree, hnodup, hconn⟩ := hs.deactivateSlot slot
  exact ⟨hindex, hmem, hfree, hnodup, hconn⟩

/-- After a release only the connection in the slot has changed: it is idle. -/
theorem release_connections (C : Primitives Key Ct) (h : SlotTable s) (slot : Nat) :
    (s.release C slot).connections =
      Function.update s.connections slot ((s.connections slot).reset C) := by
  simp only [Server.release, Server.setConnection, (h.forgotten slot).connections]

theorem release (C : Primitives Key Ct) (h : SlotTable s) (slot : Nat) :
    SlotTable (s.release C slot) := by
  have hgone := h.forgotten slot
  refine ⟨hgone.index, ?_, ?_, hgone.freeNodup⟩
  · intro i
    rw [h.release_connections C slot]
    refine Iff.trans ?_ (hgone.mem i).symm
    by_cases hi : i = slot
    · subst hi
      simp [Connection.reset]
    · rw [Function.update_of_ne hi, h.active i]
      exact ⟨fun hmem => ⟨hi, hmem⟩, fun hmem => hmem.2⟩
  · intro i hi hact
    obtain ⟨hne, hold⟩ := (hgone.mem i).mp hact
    rcases hgone.free i hi with heq | hstack
    · exact hne heq
    · exact h.free i hstack hold

theorem release_perm (C : Primitives Key Ct) (h : SlotTable s) {slot : Nat}
    (hmem : slot ∈ s.activeSlots) :
    s.activeSlots.Perm (slot :: (s.release C slot).activeSlots) := by
  have hgone := h.forgotten slot
  refine (List.perm_ext_iff_of_nodup h.index.nodup ?_).mpr ?_
  · refine List.nodup_cons.mpr ⟨?_, hgone.index.nodup⟩
    intro hslot
    exact ((hgone.mem slot).mp hslot).1 rfl
  · intro i
    rw [List.mem_cons]
    refine Iff.trans ?_ (or_congr_right (hgone.mem i).symm)
    by_cases hi : i = slot
    · simp [hi, hmem]
    · simp [hi]

theorem release_length (C : Primitives Key Ct) (h : SlotTable s) {slot : Nat}
    (hmem : slot ∈ s.activeSlots) :
    (s.release C slot).activeSlots.length + 1 = s.activeSlots.length := by
  rw [(h.release_perm C hmem).length_eq, List.length_cons]

theorem release_take (C : Primitives Key Ct) (h : SlotTable s) {slot pos : Nat}
    (hat : s.activeSlots[pos]? = some slot) :
    (s.release C slot).activeSlots.take pos = s.activeSlots.take pos := by
  have hlt : pos < s.activeSlots.length := (List.getElem?_eq_some_iff.mp hat).1
  have hmoved : s.activeSlots[s.activeSlots.length - 1]? =
      some s.activeSlots[s.activeSlots.length - 1] := List.getElem?_eq_getElem (by omega)
  have hactive : (s.release C slot).activeSlots =
      (swapOut 0 s.activeSlots s.slotToActive slot pos).1 := by
    simp only [Server.release, Server.setConnection, Server.deactivateSlot,
      (h.index slot pos).mpr hat, swapOut]
  refine List.ext_getElem? fun q => ?_
  rw [List.getElem?_take, List.getElem?_take, hactive, getElem?_swapOut 0 _ slot hlt hmoved]
  by_cases hq : q < pos
  · rw [if_pos hq, if_pos hq, if_pos (by omega), if_neg (by omega)]
  · rw [if_neg hq, if_neg hq]

end SlotTable

/-! ### The two loops of an update -/

section Loops

variable {C : Primitives Key Ct} {P : Server Key → Prop}

/-- What the release of an active slot keeps, the timeout check keeps. -/
theorem checkTimeouts_rule
    (hrelease : ∀ s slot, P s → slot ∈ s.activeSlots → P (s.release C slot)) (fuel : Nat) :
    ∀ (a : Nat) (s : Server Key), P s → P (Server.checkTimeouts C fuel a s) := by
  induction fuel with
  | zero => exact fun a s h => h
  | succ fuel ih =>
    intro a s h
    simp only [Server.checkTimeouts]
    split
    · exact h
    · rename_i slot hat
      split
      · exact ih a _ (hrelease s slot h (List.mem_of_getElem? hat))
      · exact ih (a + 1) s h

/-- What the update of one connection keeps, the loop over the slots keeps. -/
theorem processSlots_rule {cfg : ServerConfig}
    (hslot : ∀ s slot, P s → P (s.setConnection slot (serverUpdateConnection C cfg.protocolId
      s.currentTime s.dt (s.connections slot)).1)) (slots : List Nat) :
    ∀ s : Server Key, P s → P (Server.processSlots C cfg s slots).1 := by
  induction slots with
  | nil => exact fun s h => h
  | cons slot rest ih => exact fun s h => ih _ (hslot s slot h)

end Loops

end Netudp
