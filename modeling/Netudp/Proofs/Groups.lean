/-
The groups of the server.

A group's list of members and the index of positions agree, whatever is added or taken
out; the stack of free ids holds the groups that are not in use.  That a member is an
active connection rests on the slots that leave: a step of the server keeps every
connection active that it does not release (`serverStep_active`), and a slot that is
released leaves every group in the same step.

Sends, also those of a replication, change connections in place only (`Touched`).
-/
import Netudp.Proofs.ServerTables
import Netudp.Server.Host

namespace Netudp

open Lib

variable {Key Ct : Type}

/-! ### A group -/

/-- The index of the group is that of its members, and the members have room. -/
structure IndexedGroup.Whole (g : IndexedGroup) : Prop where
  index : Indexes g.slotToPos g.members
  room : g.members.length ≤ g.memberCapacity

namespace IndexedGroup

variable {g : IndexedGroup}

theorem whole_reset : Whole .reset := ⟨fun a p => by simp [reset], Nat.le_refl 0⟩

theorem whole_init (capacity : Nat) : Whole (.init capacity) :=
  ⟨fun a p => by simp [init], Nat.zero_le capacity⟩

/-- What an operation on the members leaves alone. -/
structure Kept (g g' : IndexedGroup) : Prop where
  active : g'.active = g.active
  capacity : g'.memberCapacity = g.memberCapacity

theorem Whole.add (h : g.Whole) (slot : Nat) :
    (g.add slot).2.Whole ∧ g.Kept (g.add slot).2 ∧
      ∀ i ∈ (g.add slot).2.members, i = slot ∨ i ∈ g.members := by
  simp only [IndexedGroup.add]
  split
  · exact ⟨h, ⟨rfl, rfl⟩, fun i hi => Or.inr hi⟩
  · rename_i hnew
    have hout : slot ∉ g.members := h.index.eq_none_iff.mp (by simpa using hnew)
    split
    · exact ⟨h, ⟨rfl, rfl⟩, fun i hi => Or.inr hi⟩
    · rename_i hroom
      refine ⟨⟨h.index.push hout, ?_⟩, ⟨rfl, rfl⟩, ?_⟩
      · simp only [List.length_append, List.length_singleton]
        omega
      · intro i hi
        rcases List.mem_append.mp hi with hi | hi
        · exact Or.inr hi
        · exact Or.inl (List.mem_singleton.mp hi)

theorem Whole.remove (h : g.Whole) (slot : Nat) :
    (g.remove slot).2.Whole ∧ g.Kept (g.remove slot).2 ∧
      ∀ i, i ∈ (g.remove slot).2.members ↔ i ≠ slot ∧ i ∈ g.members := by
  cases hpos : g.slotToPos slot with
  | none =>
    have hout : slot ∉ g.members := h.index.eq_none_iff.mp hpos
    simp only [IndexedGroup.remove, hpos]
    refine ⟨h, ⟨rfl, rfl⟩, ?_⟩
    intro i
    refine ⟨fun hi => ⟨?_, hi⟩, fun hi => hi.2⟩
    rintro rfl
    exact hout hi
  | some pos =>
    have heq : (g.remove slot).2 = { g with
        members := (swapOut 0 g.members g.slotToPos slot pos).1
        slotToPos := (swapOut 0 g.members g.slotToPos slot pos).2 } := by
      simp only [IndexedGroup.remove, hpos, swapOut]
    obtain ⟨hindex, hmem⟩ := h.index.swapOut 0 hpos
    rw [heq]
    exact ⟨⟨hindex, (length_swapOut_le 0 _ _ slot pos).trans h.room⟩, ⟨rfl, rfl⟩, hmem⟩

end IndexedGroup

/-! ### All groups -/

/-- The groups are whole, the free ids are those of the groups not in use, and every
member is a slot that meets `P`. -/
structure GroupsWhole (cfg : ServerConfig) (maxGroups : Nat) (P : Nat → Prop) (t : GroupTable) :
    Prop where
  whole : ∀ id, (t.groups id).Whole
  capacity : ∀ id, (t.groups id).memberCapacity ≤ min cfg.maxClients maxGroupMembers
  freeNodup : t.freeGroups.Nodup
  free : ∀ id, id ∈ t.freeGroups ↔ id < maxGroups ∧ (t.groups id).active = false
  range : ∀ id, (t.groups id).active = true → id < maxGroups
  idle : ∀ id, (t.groups id).active = false → (t.groups id).members = []
  members : ∀ id, ∀ slot ∈ (t.groups id).members, P slot

namespace GroupsWhole

variable {cfg : ServerConfig} {maxGroups : Nat} {P P' : Nat → Prop} {t : GroupTable}

theorem start (cfg : ServerConfig) (maxGroups : Nat) (P : Nat → Prop) :
    GroupsWhole cfg maxGroups P (.start maxGroups) where
  whole _ := IndexedGroup.whole_reset
  capacity _ := Nat.zero_le _
  freeNodup := List.nodup_range
  free id := by simp [GroupTable.start, IndexedGroup.reset]
  range id hid := by simp [GroupTable.start, IndexedGroup.reset] at hid
  idle _ _ := rfl
  members id slot hslot := absurd hslot List.not_mem_nil

theorem mono (h : GroupsWhole cfg maxGroups P t) (hP : ∀ i, P i → P' i) :
    GroupsWhole cfg maxGroups P' t :=
  { h with members := fun id slot hslot => hP slot (h.members id slot hslot) }

/-- What is asked of the group with an id, apart from the free ids. -/
structure Fits (cfg : ServerConfig) (maxGroups : Nat) (P : Nat → Prop) (id : Nat)
    (g : IndexedGroup) : Prop where
  whole : g.Whole
  capacity : g.memberCapacity ≤ min cfg.maxClients maxGroupMembers
  range : g.active = true → id < maxGroups
  idle : g.active = false → g.members = []
  members : ∀ slot ∈ g.members, P slot

theorem fits (h : GroupsWhole cfg maxGroups P t) (id : Nat) :
    Fits cfg maxGroups P id (t.groups id) :=
  ⟨h.whole id, h.capacity id, h.range id, h.idle id, h.members id⟩

/-- A group is replaced, and the free ids are those of the groups then not in use. -/
theorem replace (h : GroupsWhole cfg maxGroups P t) {id : Nat} {g : IndexedGroup}
    (hg : Fits cfg maxGroups P id g) {freeGroups : List Nat} (hnodup : freeGroups.Nodup)
    (hself : id ∈ freeGroups ↔ id < maxGroups ∧ g.active = false)
    (hothers : ∀ j, j ≠ id → (j ∈ freeGroups ↔ j ∈ t.freeGroups)) :
    GroupsWhole cfg maxGroups P { t.setGroup id g with freeGroups := freeGroups } := by
  have hat : ∀ j, (t.setGroup id g).groups j = if j = id then g else t.groups j :=
    fun j => Function.update_apply t.groups id g j
  have hfits : ∀ j, Fits cfg maxGroups P j ((t.setGroup id g).groups j) := by
    intro j
    rw [hat]
    split
    · rename_i hj
      rw [hj]
      exact hg
    · exact h.fits j
  have hfree : ∀ j, j ∈ freeGroups ↔
      j < maxGroups ∧ ((t.setGroup id g).groups j).active = false := by
    intro j
    rw [hat]
    split
    · rename_i hj
      rw [hj, hself]
    · rename_i hj
      rw [hothers j hj, h.free]
  exact ⟨fun j => (hfits j).whole, fun j => (hfits j).capacity, hnodup, hfree,
    fun j => (hfits j).range, fun j => (hfits j).idle, fun j => (hfits j).members⟩

theorem setGroup (h : GroupsWhole cfg maxGroups P t) {id : Nat} {g : IndexedGroup}
    (hactive : (t.groups id).active = true) (hwhole : g.Whole) (hkept : (t.groups id).Kept g)
    (hmembers : ∀ slot ∈ g.members, P slot) : GroupsWhole cfg maxGroups P (t.setGroup id g) := by
  have hfits : Fits cfg maxGroups P id g := by
    refine ⟨hwhole, hkept.capacity ▸ h.capacity id, fun _ => h.range id hactive, ?_, hmembers⟩
    intro hidle
    rw [hkept.active, hactive] at hidle
    cases hidle
  refine h.replace hfits h.freeNodup ?_ fun j _ => Iff.rfl
  rw [hkept.active]
  exact h.free id

theorem create (h : GroupsWhole cfg maxGroups P t) :
    GroupsWhole cfg maxGroups P (t.create cfg).2 := by
  simp only [GroupTable.create]
  split
  · exact h
  · rename_i id rest hfree
    have hnodup := h.freeNodup
    rw [hfree, List.nodup_cons] at hnodup
    have hid : id < maxGroups ∧ (t.groups id).active = false :=
      (h.free id).mp (by rw [hfree]; exact List.mem_cons_self)
    have hfits : Fits cfg maxGroups P id (.init (min cfg.maxClients maxGroupMembers)) :=
      ⟨IndexedGroup.whole_init _, Nat.le_refl _, fun _ => hid.1, fun _ => rfl,
        List.forall_mem_nil _⟩
    refine h.replace hfits hnodup.2 ?_ ?_
    · simp [hnodup.1, IndexedGroup.init]
    · intro j hj
      rw [hfree, List.mem_cons, or_iff_right hj]

theorem destroy (h : GroupsWhole cfg maxGroups P t) (id : Nat) :
    GroupsWhole cfg maxGroups P (t.destroy maxGroups id) := by
  simp only [GroupTable.destroy]
  split
  · exact h
  · rename_i hused
    obtain ⟨hid, hactive⟩ : id < maxGroups ∧ (t.groups id).active = true := by
      simpa using hused
    have hnotFree : id ∉ t.freeGroups := by
      intro hmem
      rw [((h.free id).mp hmem).2] at hactive
      cases hactive
    have hfits : Fits cfg maxGroups P id .reset :=
      ⟨IndexedGroup.whole_reset, Nat.zero_le _, fun _ => hid, fun _ => rfl,
        List.forall_mem_nil _⟩
    refine h.replace hfits (List.nodup_cons.mpr ⟨hnotFree, h.freeNodup⟩) ?_ ?_
    · simp [hid, IndexedGroup.reset]
    · intro j hj
      rw [List.mem_cons, or_iff_right hj]

theorem add (h : GroupsWhole cfg maxGroups P t) {s : Server Key}
    (hP : ∀ i < cfg.maxClients, (s.connections i).active = true → P i) (id client : Nat) :
    GroupsWhole cfg maxGroups P (t.add cfg maxGroups s id client).2 := by
  simp only [GroupTable.add]
  split
  · exact h
  · rename_i hused
    split
    · exact h
    · rename_i hrange
      split
      · exact h
      · rename_i hconnected
        obtain ⟨hwhole, hkept, hmem⟩ := (h.whole id).add client
        refine h.setGroup (by simpa using (not_or.mp hused).2) hwhole hkept ?_
        intro slot hslot
        rcases hmem slot hslot with rfl | hold
        · exact hP slot (Nat.lt_of_not_le hrange) (by simpa using hconnected)
        · exact h.members id slot hold

theorem remove (h : GroupsWhole cfg maxGroups P t) (id client : Nat) :
    GroupsWhole cfg maxGroups P (t.remove maxGroups id client).2 := by
  simp only [GroupTable.remove]
  split
  · exact h
  · rename_i hused
    obtain ⟨hwhole, hkept, hmem⟩ := (h.whole id).remove client
    refine h.setGroup (by simpa using (not_or.mp hused).2) hwhole hkept ?_
    intro slot hslot
    exact h.members id slot ((hmem slot).mp hslot).2

theorem forget (h : GroupsWhole cfg maxGroups P t) (slot : Nat) :
    GroupsWhole cfg maxGroups (fun i => i ≠ slot ∧ P i) (t.forget maxGroups slot) := by
  -- A group that is not in use has no members, so every group may be taken to lose the slot.
  have hone : ∀ id, ((t.forget maxGroups slot).groups id).Whole ∧
      (t.groups id).Kept ((t.forget maxGroups slot).groups id) ∧
      ∀ i, i ∈ ((t.forget maxGroups slot).groups id).members ↔
        i ≠ slot ∧ i ∈ (t.groups id).members := by
    intro id
    simp only [GroupTable.forget]
    split
    · exact (h.whole id).remove slot
    · rename_i hunused
      have hinactive : (t.groups id).active = false := by
        by_contra hactive
        rw [Bool.not_eq_false] at hactive
        exact hunused ⟨h.range id hactive, hactive⟩
      refine ⟨h.whole id, ⟨rfl, rfl⟩, ?_⟩
      simp [h.idle id hinactive]
  refine ⟨fun id => (hone id).1, ?_, h.freeNodup, ?_, ?_, ?_, ?_⟩
  · intro id
    rw [(hone id).2.1.capacity]
    exact h.capacity id
  · intro id
    rw [(hone id).2.1.active]
    exact h.free id
  · intro id hid
    rw [(hone id).2.1.active] at hid
    exact h.range id hid
  · intro id hid
    rw [(hone id).2.1.active] at hid
    refine List.eq_nil_iff_forall_not_mem.mpr ?_
    intro i hi
    have hold := (((hone id).2.2 i).mp hi).2
    rw [h.idle id hid] at hold
    exact absurd hold List.not_mem_nil
  · intro id i hi
    obtain ⟨hne, hold⟩ := ((hone id).2.2 i).mp hi
    exact ⟨hne, h.members id i hold⟩

theorem forgetAll (slots : List Nat) :
    ∀ {P : Nat → Prop} {t : GroupTable}, GroupsWhole cfg maxGroups P t →
      GroupsWhole cfg maxGroups (fun i => i ∉ slots ∧ P i)
        (slots.foldl (GroupTable.forget maxGroups) t) := by
  induction slots with
  | nil =>
    intro P t h
    exact h.mono fun i hi => ⟨List.not_mem_nil, hi⟩
  | cons slot rest ih =>
    intro P t h
    refine (ih (h.forget slot)).mono ?_
    rintro i ⟨hrest, hne, hi⟩
    exact ⟨by rw [List.mem_cons, not_or]; exact ⟨hne, hrest⟩, hi⟩

end GroupsWhole

/-! ### Sends -/

/-- Connections have changed in place. -/
structure Touched (cfg : ServerConfig) (s s' : Server Key) : Prop where
  tables : Tables cfg s → Tables cfg s'
  peers : ∀ i, SamePeer (s.connections i) (s'.connections i)

section Touched

variable (C : Primitives Key Ct) (Q : Quantizers) (cfg : ServerConfig)

theorem Touched.refl (s : Server Key) : Touched cfg s s := ⟨id, fun _ => .refl _⟩

theorem Touched.trans {cfg : ServerConfig} {s s' s'' : Server Key} (h : Touched cfg s s')
    (h' : Touched cfg s' s'') : Touched cfg s s'' :=
  ⟨fun htables => h'.tables (h.tables htables), fun i => (h.peers i).trans (h'.peers i)⟩

theorem touched_setConnection (s : Server Key) {slot : Nat} {c : Connection Key}
    (hpeer : SamePeer (s.connections slot) c) : Touched cfg s (s.setConnection slot c) := by
  refine ⟨fun htables => htables.touch hpeer, ?_⟩
  intro i
  by_cases hi : i = slot
  · rw [hi, Server.setConnection_self]
    exact hpeer
  · rw [Server.setConnection_of_ne s hi]
    exact .refl _

theorem send_touched (s : Server Key) (client channel : Nat) (data : Bytes) (flags : SendFlags) :
    Touched cfg s (s.send C cfg client channel data flags).2 := by
  simp only [Server.send]
  split
  · exact .refl cfg s
  · exact touched_setConnection cfg s
      (serverSend_samePeer C s.currentTime cfg.protocolId _ channel data flags)

theorem sendState_touched (s : Server Key) (client channel entityId : Nat) (data : Bytes) :
    Touched cfg s (s.sendState cfg client channel entityId data).2 := by
  simp only [Server.sendState]
  split
  · exact .refl cfg s
  · exact touched_setConnection cfg s
      (serverSendState_samePeer s.currentTime _ channel entityId data)

theorem sendEach_touched (channel : Nat) (data : Bytes) (flags : SendFlags) (clients : List Nat) :
    ∀ s : Server Key, Touched cfg s (s.sendEach C cfg channel data flags clients).2 := by
  induction clients with
  | nil => exact Touched.refl cfg
  | cons client rest ih =>
    intro s
    exact (send_touched C cfg s client channel data flags).trans (ih _)

theorem groupSend_touched (maxGroups : Nat) (t : GroupTable) (s : Server Key) (id channel : Nat)
    (data : Bytes) (flags : SendFlags) :
    Touched cfg s (s.groupSend C cfg maxGroups t id channel data flags).2 := by
  simp only [Server.groupSend]
  split
  · exact .refl cfg s
  · exact sendEach_touched C cfg channel data flags _ s

theorem replicateTo_touched (e : Entity) (channel : Nat) (s : Server Key) (client : Nat) :
    Touched cfg s (s.replicateTo C Q cfg e channel client).1 := by
  simp only [Server.replicateTo]
  split
  · exact .refl cfg s
  · exact .refl cfg s
  · split
    · exact send_touched C cfg s client channel _ 0
    · exact sendState_touched cfg s client channel e.entityId _

theorem replicateMembers_touched (e : Entity) (channel : Nat) (clients : List Nat) :
    ∀ s : Server Key, Touched cfg s (s.replicateMembers C Q cfg e channel clients).1 := by
  induction clients with
  | nil => exact Touched.refl cfg
  | cons client rest ih =>
    intro s
    exact (replicateTo_touched C Q cfg e channel s client).trans (ih _)

theorem replicateEntity_touched (maxGroups : Nat) (groups : Nat → Group) (s : Server Key)
    (e : Entity) :
    Touched cfg s (s.replicateEntity C Q cfg maxGroups groups e).server := by
  simp only [Server.replicateEntity]
  split
  · exact .refl cfg s
  · split
    · exact replicateMembers_touched C Q cfg e _ _ s
    · exact .refl cfg s

/-- A replication changes connections in place and leaves the groups alone. -/
theorem replicateAt_touched (cfg : HostConfig) (h : Host Key) (i : Nat) :
    Touched cfg.toServerConfig h.server (h.replicateAt C Q cfg i).server ∧
      (h.replicateAt C Q cfg i).groups = h.groups := by
  simp only [Host.replicateAt]
  split
  · exact ⟨.refl _ _, rfl⟩
  · exact ⟨replicateEntity_touched C Q _ _ _ _ _, rfl⟩

theorem replicate_touched (cfg : HostConfig) (h : Host Key) :
    Touched cfg.toServerConfig h.server (h.replicate C Q cfg).server ∧
      (h.replicate C Q cfg).groups = h.groups := by
  refine run_invariant'
    (fun h' : Host Key => Touched cfg.toServerConfig h.server h'.server ∧ h'.groups = h.groups) ?_ _
    ⟨.refl _ _, rfl⟩
  rintro h' i ⟨htouched, hgroups⟩
  obtain ⟨hstep, hsame⟩ := replicateAt_touched C Q cfg h' i
  exact ⟨htouched.trans hstep, hsame.trans hgroups⟩

end Touched

/-! ### Slots that stay -/

/-- The slot a request is admitted into. -/
def Server.admitted (T : TokenOps Key) (cfg : ServerConfig) (s : Server Key) :
    ServerEvent Ct → Option Nat
  | .dispatch from_ (.request packet) => (s.admits T cfg from_ packet).map Prod.fst
  | _ => none

section Stays

variable {C : Primitives Key Ct} {T : TokenOps Key} {cfg : ServerConfig} {s : Server Key}

theorem admits_free {from_ : Address} {packet : Bytes} {slot : Nat}
    {token : PrivateConnectToken Key} (h : s.admits T cfg from_ packet = some (slot, token)) :
    slot ∈ s.freeSlots := by
  simp only [Server.admits] at h
  split at h
  · split at h
    · rename_i hfree
      obtain ⟨rfl, -⟩ := Prod.mk.inj (Option.some.inj h)
      rw [hfree]
      exact List.mem_cons_self
    · cases h
  · cases h

theorem admitted_free {ev : ServerEvent Ct} {slot : Nat} (h : s.admitted T cfg ev = some slot) :
    slot ∈ s.freeSlots := by
  unfold Server.admitted at h
  split at h
  · obtain ⟨⟨_, token⟩, hadmits, rfl⟩ := Option.map_eq_some_iff.mp h
    exact admits_free hadmits
  · cases h

theorem handleConnectionRequest_connections {from_ : Address} {packet : Bytes}
    (hrequest : Server.isRequest packet = true) {i : Nat}
    (hother : (s.admits T cfg from_ packet).map Prod.fst ≠ some i) :
    (s.handleConnectionRequest C T cfg from_ packet).1.connections i = s.connections i := by
  simp only [Server.handleConnectionRequest]
  cases hpass : s.passesChecks T cfg from_ packet with
  | none => rfl
  | some token =>
    have hstack : (s.rememberToken T from_ packet).freeSlots = s.freeSlots := rfl
    simp only [hstack]
    cases hfree : s.freeSlots with
    | nil => rfl
    | cons slot rest =>
      have hne : i ≠ slot := by
        rintro rfl
        apply hother
        rw [Server.admits, if_pos hrequest, hpass, hfree]
        rfl
      exact Server.setConnection_of_ne _ hne _

theorem checkTimeouts_connections (fuel : Nat) :
    ∀ (a : Nat) (s : Server Key), Tables cfg s → ∀ i ∉ Server.timedOutSlots C fuel a s,
      (Server.checkTimeouts C fuel a s).connections i = s.connections i := by
  induction fuel with
  | zero =>
    intro a s _ i _
    rfl
  | succ fuel ih =>
    intro a s h i hi
    simp only [Server.timedOutSlots] at hi
    simp only [Server.checkTimeouts]
    split
    · rfl
    · rename_i slot hat
      simp only [hat] at hi
      split
      · rename_i hlate
        rw [if_pos hlate, List.mem_cons, not_or] at hi
        rw [ih a _ (h.release (List.mem_of_getElem? hat)) i hi.2,
          h.table.release_connections C slot, Function.update_of_ne hi.1]
      · rename_i hlate
        rw [if_neg hlate] at hi
        exact ih (a + 1) s h i hi

theorem processSlots_touched (slots : List Nat) (s : Server Key) :
    Touched cfg s (Server.processSlots C cfg s slots).1 := by
  refine processSlots_rule (P := Touched cfg s) ?_ slots s (.refl cfg s)
  intro t slot ht
  exact ht.trans (touched_setConnection cfg t (serverUpdateConnection_samePeer C t.currentTime
    cfg.protocolId t.dt (t.connections slot)))

theorem onConnection_samePeer (slot i : Nat)
    {call : Connection Key → Connection Key × List (SendAction Key Ct)}
    (hpeer : ∀ c, SamePeer c (call c).1) :
    SamePeer (s.connections i) ((s.onConnection cfg slot call).1.connections i) := by
  simp only [Server.onConnection]
  split
  · exact .refl _
  · exact (touched_setConnection cfg s (hpeer _)).peers i

/-- **A step of the server leaves a slot with its client** unless it releases the slot or
admits a client into it. -/
theorem serverStep_samePeer (h : Tables cfg s) (ev : ServerEvent Ct) {i : Nat}
    (hstays : i ∉ s.releases C cfg ev) (hother : s.admitted T cfg ev ≠ some i) :
    SamePeer (s.connections i) ((serverStep C T cfg s ev).1.connections i) := by
  cases ev with
  | beginUpdate time => exact .refl _
  | dispatch from_ packet =>
    cases packet with
    | request packet =>
      simp only [serverStep, Server.dispatchPacket]
      split
      · rename_i hrequest
        rw [handleConnectionRequest_connections hrequest hother]
        exact .refl _
      · exact .refl _
    | data wireSlot packet =>
      simp only [serverStep, Server.dispatchPacket]
      simp only [Server.releases] at hstays
      split
      · rename_i hdata
        rw [if_pos hdata] at hstays
        split
        · exact .refl _
        · rename_i slot hfind
          simp only [hfind] at hstays
          have hpeer := serverHandleDataPacket_samePeer C s.currentTime cfg.protocolId
            (s.connections slot) packet
          have htouched := touched_setConnection cfg s hpeer
          simp only [Server.handleDataPacket]
          split
          · rename_i hleft
            rw [if_pos hleft, List.mem_singleton] at hstays
            rw [(htouched.tables h).table.release_connections C slot,
              Function.update_of_ne hstays]
            exact htouched.peers i
          · exact htouched.peers i
      · exact .refl _
  | finishUpdate =>
    have hchecked := checkTimeouts_connections (C := C) s.activeSlots.length 0 s h i hstays
    simp only [serverStep, Server.finishUpdate]
    rw [← hchecked]
    exact (processSlots_touched _ _).peers i
  | send slot channel data flags =>
    exact onConnection_samePeer slot i fun c =>
      serverSend_samePeer C s.currentTime cfg.protocolId c channel data flags
  | sendState slot channel entityId data =>
    exact onConnection_samePeer slot i fun c =>
      serverSendState_samePeer s.currentTime c channel entityId data
  | flush slot =>
    exact onConnection_samePeer slot i fun c =>
      serverFlush_samePeer C s.currentTime cfg.protocolId c

theorem serverStep_active (h : Tables cfg s) (ev : ServerEvent Ct) {i : Nat}
    (hstays : i ∉ s.releases C cfg ev) (hactive : (s.connections i).active = true) :
    ((serverStep C T cfg s ev).1.connections i).active = true := by
  have hother : s.admitted T cfg ev ≠ some i := by
    intro hadmitted
    exact h.table.free i (admitted_free hadmitted) ((h.table.active i).mp hactive)
  rw [(serverStep_samePeer h ev hstays hother).active, hactive]

/-- **A packet concerns the client it comes from**: whatever the server is sent, it leaves a
connection as it is, unless the slot was free or the connection is with the sender. -/
theorem packet_stays_with_sender (C : Primitives Key Ct) (T : TokenOps Key) (cfg : ServerConfig)
    (time : Time) (es : List (ServerEvent Ct)) (from_ : Address) (packet : Incoming Ct) (i : Nat) :
    let s := Server.after C T cfg time es
    (s.dispatchPacket C T cfg from_ packet).1.connections i = s.connections i ∨
      (s.connections i).active = false ∨
      addressEqual (s.connections i).address from_ = true := by
  intro s
  have h : Tables cfg s := tables_after C T cfg time es
  by_cases hactive : (s.connections i).active = true
  · cases packet with
    | request packet =>
      simp only [Server.dispatchPacket]
      split
      · rename_i hrequest
        refine Or.inl (handleConnectionRequest_connections hrequest ?_)
        intro hadmits
        obtain ⟨_, hslot, rfl⟩ := Option.map_eq_some_iff.mp hadmits
        exact h.table.free _ (admits_free hslot) ((h.table.active _).mp hactive)
      · exact Or.inl rfl
    | data wireSlot packet =>
      simp only [Server.dispatchPacket]
      split
      · split
        · exact Or.inl rfl
        · rename_i slot hfind
          by_cases hi : i = slot
          · subst hi
            exact Or.inr (Or.inr (h.findSlot_sound hfind).2)
          · refine Or.inl ?_
            have htable := h.table.setConnection (serverHandleDataPacket_samePeer C s.currentTime
              cfg.protocolId (s.connections slot) packet).active
            simp only [Server.handleDataPacket]
            split
            · rw [htable.release_connections C slot, Function.update_of_ne hi,
                Server.setConnection_of_ne s hi]
            · exact Server.setConnection_of_ne s hi _
      · exact Or.inl rfl
  · exact Or.inr (Or.inl (Bool.eq_false_iff.mpr hactive))

end Stays

/-! ### Sending to a group -/

/-- A send for each client of a list without duplicates: each has the result and the
connection it would have had on its own. -/
theorem sendEach_spec (C : Primitives Key Ct) (cfg : ServerConfig) (channel : Nat) (data : Bytes)
    (flags : SendFlags) (clients : List Nat) :
    ∀ s : Server Key, clients.Nodup → (∀ client ∈ clients, client < cfg.maxClients) →
      (s.sendEach C cfg channel data flags clients).1 = clients.map (fun client =>
        (client, (serverSend C cfg.protocolId s.currentTime (s.connections client) channel data
          flags).1)) ∧
      ∀ i, (s.sendEach C cfg channel data flags clients).2.connections i =
        if i ∈ clients then
          (serverSend C cfg.protocolId s.currentTime (s.connections i) channel data flags).2.1
        else s.connections i := by
  induction clients with
  | nil =>
    intro s _ _
    exact ⟨rfl, fun i => by simp [Server.sendEach]⟩
  | cons client rest ih =>
    intro s hnodup hrange
    rw [List.nodup_cons] at hnodup
    have hin : ¬ cfg.maxClients ≤ client :=
      Nat.not_le.mpr (hrange client List.mem_cons_self)
    obtain ⟨hresults, hconn⟩ := ih
      (s.setConnection client
        (serverSend C cfg.protocolId s.currentTime (s.connections client) channel data flags).2.1)
      hnodup.2 (fun c hc => hrange c (List.mem_cons_of_mem _ hc))
    have hother : ∀ c ∈ rest, c ≠ client := by
      rintro c hc rfl
      exact hnodup.1 hc
    simp only [Server.sendEach, Server.send, if_neg hin]
    refine ⟨?_, ?_⟩
    · rw [hresults, List.map_cons]
      refine congrArg _ (List.map_congr_left ?_)
      intro c hc
      rw [Server.setConnection_of_ne s (hother c hc)]
      rfl
    · intro i
      rw [hconn i]
      by_cases hi : i = client
      · subst hi
        rw [if_neg hnodup.1, if_pos List.mem_cons_self, Server.setConnection_self]
      · rw [Server.setConnection_of_ne s hi]
        simp only [List.mem_cons, hi, false_or]
        rfl

/-- **A broadcast is one send to each connected client** but the one excepted, as it would be
on its own, and changes no other connection. -/
theorem broadcast_reaches_connected (C : Primitives Key Ct) (T : TokenOps Key) (cfg : ServerConfig)
    (time : Time) (es : List (ServerEvent Ct)) (except : Int) (channel : Nat) (data : Bytes)
    (flags : SendFlags) :
    let s := Server.after C T cfg time es
    let sent := s.broadcast C cfg except channel data flags
    let one := fun slot => serverSend C cfg.protocolId s.currentTime (s.connections slot) channel
      data flags
    let reached := fun slot : Nat => (s.connections slot).active = true ∧ slot ≠ except
    (∃ slots : List Nat, slots.Nodup ∧ (∀ slot, slot ∈ slots ↔ reached slot) ∧
      sent.1 = slots.map fun slot => (slot, (one slot).1)) ∧
    ∀ slot, sent.2.connections slot =
      if reached slot then (one slot).2.1 else s.connections slot := by
  intro s sent one reached
  have h : Tables cfg s := tables_after C T cfg time es
  have hreached : ∀ slot, slot ∈ s.activeSlots.filter (fun slot : Nat => slot ≠ except) ↔
      reached slot := by
    intro slot
    rw [List.mem_filter, decide_eq_true_iff, ← h.table.active]
  have hnodup := h.table.index.nodup.filter fun slot : Nat => (slot : Int) ≠ except
  obtain ⟨hresults, hconn⟩ := sendEach_spec C cfg channel data flags _ s hnodup fun slot hslot =>
    (h.slots slot).mp (Or.inl (List.mem_filter.mp hslot).1)
  refine ⟨⟨_, hnodup, hreached, hresults⟩, ?_⟩
  intro slot
  simp only [← hreached]
  exact hconn slot

/-! ### Runs -/

section Runs

variable (C : Primitives Key Ct) (T : TokenOps Key) (Q : Quantizers) (cfg : HostConfig)

/-- The host after the events. -/
def Host.after (time : Time) (es : List (HostEvent Ct)) : Host Key :=
  run (hostStep C T Q cfg) (.start C cfg time) es

/-- The tables and the groups are in order, and the members of groups are connected. -/
structure HostWhole (h : Host Key) : Prop where
  tables : Tables cfg.toServerConfig h.server
  groups : GroupsWhole cfg.toServerConfig cfg.maxGroups
    (fun i => (h.server.connections i).active = true) h.groups

variable {cfg} in
theorem HostWhole.touched {h h' : Host Key} (hw : HostWhole cfg h)
    (htouched : Touched cfg.toServerConfig h.server h'.server) (hgroups : h'.groups = h.groups) :
    HostWhole cfg h' := by
  refine ⟨htouched.tables hw.tables, ?_⟩
  rw [hgroups]
  refine hw.groups.mono ?_
  intro i hi
  rw [(htouched.peers i).active, hi]

/-- **A step keeps them in order.** -/
theorem hostWhole_step {h : Host Key} (hw : HostWhole cfg h) (ev : HostEvent Ct) :
    HostWhole cfg (hostStep C T Q cfg h ev) := by
  cases ev with
  | server ev =>
    refine ⟨tables_step C T cfg.toServerConfig hw.tables ev, ?_⟩
    refine (hw.groups.forgetAll _).mono ?_
    rintro i ⟨hstays, hactive⟩
    exact serverStep_active hw.tables ev hstays hactive
  | groupCreate => exact ⟨hw.tables, hw.groups.create⟩
  | groupDestroy id => exact ⟨hw.tables, hw.groups.destroy id⟩
  | groupAdd id client => exact ⟨hw.tables, hw.groups.add (fun _ _ hi => hi) id client⟩
  | groupRemove id client => exact ⟨hw.tables, hw.groups.remove id client⟩
  | groupSend id channel data flags =>
    exact hw.touched (groupSend_touched C _ _ _ _ id channel data flags) rfl
  | entityCreate schema => exact ⟨hw.tables, hw.groups⟩
  | entityDestroy eid => exact ⟨hw.tables, hw.groups⟩
  | setGroup eid groupId => exact ⟨hw.tables, hw.groups⟩
  | setOwner eid client => exact ⟨hw.tables, hw.groups⟩
  | setMaxRate eid hz => exact ⟨hw.tables, hw.groups⟩
  | set eid call => exact ⟨hw.tables, hw.groups⟩
  | replicate =>
    obtain ⟨htouched, hgroups⟩ := replicate_touched C Q cfg h
    exact hw.touched htouched hgroups

theorem hostWhole_start (time : Time) : HostWhole cfg (Host.start C cfg time) :=
  ⟨tables_start C cfg.toServerConfig time, .start _ _ _⟩

theorem hostWhole_after (time : Time) (es : List (HostEvent Ct)) :
    HostWhole cfg (Host.after C T Q cfg time es) :=
  run_invariant' (HostWhole cfg) (fun _ ev hw => hostWhole_step C T Q cfg hw ev) es
    (hostWhole_start C cfg time)

section Members

variable {cfg} {h : Host Key} {id : Nat}

theorem HostWhole.member (hw : HostWhole cfg h) {slot : Nat}
    (hslot : slot ∈ (h.groups.groups id).members) :
    slot < cfg.maxClients ∧ (h.server.connections slot).active = true := by
  have hconnected := hw.groups.members id slot hslot
  have hlisted := (hw.tables.table.active slot).mp hconnected
  exact ⟨(hw.tables.slots slot).mp (Or.inl hlisted), hconnected⟩

theorem HostWhole.groupSend (hw : HostWhole cfg h) (hactive : (h.groups.groups id).active = true)
    (channel : Nat) (data : Bytes) (flags : SendFlags) :
    let sent := h.server.groupSend C cfg.toServerConfig cfg.maxGroups h.groups id channel data flags
    let one := fun slot => serverSend C cfg.protocolId h.server.currentTime
      (h.server.connections slot) channel data flags
    sent.1 = (h.groups.groups id).members.map (fun slot => (slot, (one slot).1)) ∧
      ∀ slot, sent.2.connections slot =
        if slot ∈ (h.groups.groups id).members then (one slot).2.1
        else h.server.connections slot := by
  intro sent one
  have hused : ¬ (cfg.maxGroups ≤ id ∨ (h.groups.groups id).active = false) := by
    rw [hactive]
    simpa using hw.groups.range id hactive
  have hsent : sent = h.server.sendEach C cfg.toServerConfig channel data flags
      (h.groups.groups id).members := if_neg hused
  rw [hsent]
  exact sendEach_spec C cfg.toServerConfig channel data flags _ h.server
    (hw.groups.whole id).index.nodup fun slot hslot => (hw.member hslot).1

end Members

/-- **In every reachable state the groups are whole.**  The free ids are those of the
groups not in use, once each; the members of a group in use are active connections, once
each, the index is their inverse, and they fit the group's part of the pool; a send to
the group is one send for each of them, as it would be on its own, and changes no other
connection. -/
theorem group_membership (time : Time) (es : List (HostEvent Ct)) :
    let h := Host.after C T Q cfg time es
    (h.groups.freeGroups.Nodup ∧
      ∀ id, id ∈ h.groups.freeGroups ↔ id < cfg.maxGroups ∧ (h.groups.groups id).active = false) ∧
    ∀ id, (h.groups.groups id).active = true →
      let g := h.groups.groups id
      id < cfg.maxGroups ∧ g.members.Nodup ∧
        g.members.length ≤ min cfg.maxClients maxGroupMembers ∧
        (∀ slot pos, g.slotToPos slot = some pos ↔ g.members[pos]? = some slot) ∧
        (∀ slot, g.slotToPos slot = none ↔ slot ∉ g.members) ∧
        (∀ slot ∈ g.members, slot < cfg.maxClients ∧ (h.server.connections slot).active = true) ∧
        ∀ channel data flags,
          let sent := h.server.groupSend C cfg.toServerConfig cfg.maxGroups h.groups id channel
            data flags
          let one := fun slot => serverSend C cfg.protocolId h.server.currentTime
            (h.server.connections slot) channel data flags
          sent.1 = g.members.map (fun slot => (slot, (one slot).1)) ∧
            ∀ slot, sent.2.connections slot =
              if slot ∈ g.members then (one slot).2.1 else h.server.connections slot := by
  intro h
  have hw : HostWhole cfg h := hostWhole_after C T Q cfg time es
  refine ⟨⟨hw.groups.freeNodup, hw.groups.free⟩, ?_⟩
  intro id hactive g
  have hg : g.Whole := hw.groups.whole id
  refine ⟨hw.groups.range id hactive, hg.index.nodup, hg.room.trans (hw.groups.capacity id),
    hg.index, fun slot => hg.index.eq_none_iff, fun slot hslot => hw.member hslot, ?_⟩
  intro channel data flags
  exact hw.groupSend C hactive channel data flags

end Runs

end Netudp
