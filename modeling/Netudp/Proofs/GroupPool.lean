/-
The groups in their pools.

Each group has its own slices of the two pools, and as long as a call comes with a client
index that is in the table, what it reads and writes through the group's pointers lies in
those slices.  Then the pools are one way to store the table of groups, each group with its
list of members and their positions, and every call on the pools does what it does on the
table.
-/
import Netudp.Proofs.Groups
import Netudp.Proofs.NonceReuse
import Netudp.Server.GroupPool

namespace Netudp

open Lib

variable {Key : Type} {cfg : ServerConfig} {maxGroups : Nat}

/-! ### How a group is stored -/

/-- The width of a group's slice of the member pool. -/
def memberWidth (cfg : ServerConfig) : Nat := min cfg.maxClients maxGroupMembers

/-- A position as the slot pool has it. -/
def storedPos : Option Nat → Int
  | none => -1
  | some pos => pos

theorem storedPos_nonneg_iff (pos : Option Nat) : 0 ≤ storedPos pos ↔ pos.isSome = true := by
  cases pos with
  | none => simp [storedPos]
  | some pos => simp [storedPos]

/-- The group as the array of groups has it. -/
def storedGroup (cfg : ServerConfig) (id : Nat) (g : IndexedGroup) : PooledGroup :=
  if g.active then
    { active := true
      groupId := id
      members := some (id * memberWidth cfg : Nat)
      memberCount := g.members.length
      memberCapacity := g.memberCapacity
      slotToPos := some (id * cfg.maxClients : Nat) }
  else {}

/-- The pool has this group, and in its slices the members and their positions. -/
structure GroupAt (cfg : ServerConfig) (p : GroupPool) (id : Nat) (g : IndexedGroup) : Prop where
  group : p.groups id = storedGroup cfg id g
  entries : g.active = true → ∀ (q slot : Nat), g.members[q]? = some slot →
    p.memberPool (rowAt (memberWidth cfg) id q) = slot
  positions : g.active = true → ∀ slot < cfg.maxClients,
    p.slotPool (rowAt cfg.maxClients id slot) = storedPos (g.slotToPos slot)

/-- Nothing has changed but one group and what is in its slices. -/
structure OnlyGroup (cfg : ServerConfig) (id : Nat) (p p' : GroupPool) : Prop where
  groups : ∀ j ≠ id, p'.groups j = p.groups j
  entries : ∀ j ≠ id, ∀ q < memberWidth cfg,
    p'.memberPool (rowAt (memberWidth cfg) j q) = p.memberPool (rowAt (memberWidth cfg) j q)
  positions : ∀ j ≠ id, ∀ slot < cfg.maxClients,
    p'.slotPool (rowAt cfg.maxClients j slot) = p.slotPool (rowAt cfg.maxClients j slot)

theorem OnlyGroup.refl (id : Nat) (p : GroupPool) : OnlyGroup cfg id p p :=
  ⟨fun _ _ => rfl, fun _ _ _ _ => rfl, fun _ _ _ _ => rfl⟩

/-- The other groups are where they were. -/
theorem GroupAt.frame {p p' : GroupPool} {id j : Nat} {g : IndexedGroup} (h : GroupAt cfg p j g)
    (honly : OnlyGroup cfg id p p') (hj : j ≠ id) (hroom : g.members.length ≤ memberWidth cfg) :
    GroupAt cfg p' j g := by
  refine ⟨(honly.groups j hj).trans h.group, ?_, ?_⟩
  · intro hactive q slot hq
    have hlt : q < g.members.length := (List.getElem?_eq_some_iff.mp hq).1
    rw [honly.entries j hj q (by omega)]
    exact h.entries hactive q slot hq
  · intro hactive slot hslot
    rw [honly.positions j hj slot hslot]
    exact h.positions hactive slot hslot

/-- The pool with this group stored in it. -/
def GroupPool.stored (cfg : ServerConfig) (p : GroupPool) (id : Nat) (g : IndexedGroup)
    (memberPool slotPool : Int → Int) : GroupPool :=
  { p.setGroup id (storedGroup cfg id g) with memberPool := memberPool, slotPool := slotPool }

theorem GroupPool.stored_at {p : GroupPool} {id : Nat} {g : IndexedGroup}
    {memberPool slotPool : Int → Int}
    (hentries : g.active = true → ∀ (q slot : Nat), g.members[q]? = some slot →
      memberPool (rowAt (memberWidth cfg) id q) = slot)
    (hpositions : g.active = true → ∀ slot < cfg.maxClients,
      slotPool (rowAt cfg.maxClients id slot) = storedPos (g.slotToPos slot)) :
    GroupAt cfg (p.stored cfg id g memberPool slotPool) id g :=
  ⟨Function.update_self id _ p.groups, hentries, hpositions⟩

theorem GroupPool.stored_only {p : GroupPool} {id : Nat} {g : IndexedGroup}
    {memberPool slotPool : Int → Int}
    (hentries : ∀ j ≠ id, ∀ q < memberWidth cfg,
      memberPool (rowAt (memberWidth cfg) j q) = p.memberPool (rowAt (memberWidth cfg) j q))
    (hpositions : ∀ j ≠ id, ∀ slot < cfg.maxClients,
      slotPool (rowAt cfg.maxClients j slot) = p.slotPool (rowAt cfg.maxClients j slot)) :
    OnlyGroup cfg id p (p.stored cfg id g memberPool slotPool) :=
  ⟨fun _ hj => Function.update_of_ne hj _ p.groups, hentries, hpositions⟩

/-! ### A group -/

/-- What a call on one group of the pool makes of it, next to what it makes of the group. -/
structure Simulates (cfg : ServerConfig) (p : GroupPool) (id : Nat) (pooled : Bool × GroupPool)
    (table : Bool × IndexedGroup) : Prop where
  result : pooled.1 = table.1
  group : GroupAt cfg pooled.2 id table.2
  only : OnlyGroup cfg id p pooled.2
  free : pooled.2.freeGroups = p.freeGroups

section OneGroup

variable {p : GroupPool} {id slot : Nat} {g : IndexedGroup}

theorem Simulates.refused (h : GroupAt cfg p id g) : Simulates cfg p id (false, p) (false, g) :=
  ⟨rfl, h, .refl id p, rfl⟩

theorem GroupAt.read (h : GroupAt cfg p id g) (hactive : g.active = true)
    (hslot : slot < cfg.maxClients) :
    p.slotPool ((id * cfg.maxClients : Nat) + slot) = storedPos (g.slotToPos slot) :=
  h.positions hactive slot hslot

/-- `Group::add` on a stored group. -/
theorem addTo_eq (h : GroupAt cfg p id g) (hactive : g.active = true)
    (hslot : slot < cfg.maxClients) :
    p.addTo id slot =
      if (g.slotToPos slot).isSome then (false, p)
      else if g.memberCapacity ≤ g.members.length then (false, p)
      else (true, p.stored cfg id
        { g with
          slotToPos := Function.update g.slotToPos slot (some g.members.length)
          members := g.members ++ [slot] }
        (Function.update p.memberPool (rowAt (memberWidth cfg) id g.members.length) slot)
        (Function.update p.slotPool (rowAt cfg.maxClients id slot) g.members.length)) := by
  simp only [GroupPool.addTo, h.group, storedGroup, hactive, if_true, h.read hactive hslot,
    storedPos_nonneg_iff, Nat.cast_le]
  rw [if_neg (by omega)]
  simp [GroupPool.stored, storedGroup, rowAt]

theorem addTo_simulates (h : GroupAt cfg p id g) (hactive : g.active = true)
    (hcapacity : g.memberCapacity ≤ memberWidth cfg) (hslot : slot < cfg.maxClients) :
    Simulates cfg p id (p.addTo id slot) (g.add slot) := by
  rw [addTo_eq h hactive hslot, IndexedGroup.add]
  split
  · exact .refused h
  · split
    · exact .refused h
    · rename_i hfull
      have hroom : g.members.length < memberWidth cfg := by omega
      refine ⟨rfl, GroupPool.stored_at ?_ ?_, GroupPool.stored_only ?_ ?_, rfl⟩
      · intro _ q slot' hq
        have hle : q ≤ g.members.length := by
          have hlt := (List.getElem?_eq_some_iff.mp hq).1
          simp only [List.length_append, List.length_singleton] at hlt
          omega
        rw [update_row _ _ hroom (by omega)]
        by_cases hlast : q = g.members.length
        · rw [if_pos ⟨rfl, hlast⟩]
          simpa [hlast] using hq
        · rw [if_neg (by simp [hlast])]
          refine h.entries hactive q slot' ?_
          rwa [List.getElem?_append_left (by omega)] at hq
      · intro _ slot' hslot'
        rw [update_row _ _ hslot hslot']
        by_cases hsame : slot' = slot
        · simp [hsame, storedPos]
        · rw [if_neg (by simp [hsame]), h.positions hactive slot' hslot']
          simp [hsame]
      · exact fun j hj q hq => update_other_row _ _ hroom hq hj
      · exact fun j hj slot' hslot' => update_other_row _ _ hslot hslot' hj

/-- `Group::remove` on a stored group. -/
theorem removeFrom_eq (h : GroupAt cfg p id g) (hactive : g.active = true) (hwhole : g.Whole)
    (hslot : slot < cfg.maxClients) {pos moved : Nat} (hpos : g.slotToPos slot = some pos)
    (hmoved : g.members[g.members.length - 1]? = some moved) :
    p.removeFrom id slot = (true, p.stored cfg id
      { g with
        members := (swapOut 0 g.members g.slotToPos slot pos).1
        slotToPos := (swapOut 0 g.members g.slotToPos slot pos).2 }
      (if pos < g.members.length - 1 then
        Function.update p.memberPool (rowAt (memberWidth cfg) id pos) moved else p.memberPool)
      (Function.update (if pos < g.members.length - 1 then
        Function.update p.slotPool (rowAt cfg.maxClients id moved) pos else p.slotPool)
        (rowAt cfg.maxClients id slot) (-1))) := by
  have hlt : pos < g.members.length :=
    (List.getElem?_eq_some_iff.mp ((hwhole.index slot pos).mp hpos)).1
  have hlast : (g.members.length : Int) - 1 = (g.members.length - 1 : Nat) := by omega
  have hread : p.memberPool ((id * memberWidth cfg : Nat) + ((g.members.length - 1 : Nat) : Int)) =
      moved := h.entries hactive _ _ hmoved
  simp only [GroupPool.removeFrom, h.group, storedGroup, hactive, if_true, h.read hactive hslot,
    hpos, storedPos, hlast, hread, Nat.cast_lt]
  rw [if_neg (by omega), if_neg (by omega)]
  simp only [GroupPool.stored, storedGroup, if_true, length_swapOut, rowAt]
  split
  · rfl
  · rfl

section Leaves

variable {pos moved : Nat}

/-- The entries once the last member has been put into the place of the one that leaves. -/
theorem entries_leave (h : GroupAt cfg p id g) (hactive : g.active = true) (slot : Nat)
    (hroom : g.members.length ≤ memberWidth cfg) (hlt : pos < g.members.length)
    (hmoved : g.members[g.members.length - 1]? = some moved) {q slot' : Nat}
    (hq : (swapOut 0 g.members g.slotToPos slot pos).1[q]? = some slot') :
    (if pos < g.members.length - 1 then
      Function.update p.memberPool (rowAt (memberWidth cfg) id pos) moved else p.memberPool)
      (rowAt (memberWidth cfg) id q) = slot' := by
  rw [getElem?_swapOut 0 _ slot hlt hmoved, Option.ite_none_right_eq_some] at hq
  obtain ⟨hshort, hq⟩ := hq
  by_cases hplace : q = pos
  · rw [if_pos hplace, Option.some.injEq] at hq
    rw [if_pos (by omega), update_row _ _ (by omega) (by omega), if_pos ⟨rfl, hplace⟩, hq]
  · rw [if_neg hplace] at hq
    rw [← h.entries hactive q slot' hq]
    split
    · rw [update_row _ _ (by omega) (by omega), if_neg (by simp [hplace])]
    · rfl

theorem positions_leave (h : GroupAt cfg p id g) (hactive : g.active = true)
    (hslot : slot < cfg.maxClients) (hat : g.members[pos]? = some slot)
    (hmoved : g.members[g.members.length - 1]? = some moved)
    (hmovedSlot : moved < cfg.maxClients) {slot' : Nat} (hslot' : slot' < cfg.maxClients) :
    Function.update (if pos < g.members.length - 1 then
      Function.update p.slotPool (rowAt cfg.maxClients id moved) pos else p.slotPool)
      (rowAt cfg.maxClients id slot) (-1) (rowAt cfg.maxClients id slot') =
      storedPos ((swapOut 0 g.members g.slotToPos slot pos).2 slot') := by
  rw [update_row _ _ hslot hslot', index_swapOut 0 _ hat hmoved]
  by_cases hsame : slot' = slot
  · simp [hsame, storedPos]
  · rw [if_neg (by simp [hsame]), if_neg hsame]
    by_cases hmid : pos < g.members.length - 1
    · rw [if_pos hmid, update_row _ _ hmovedSlot hslot', h.positions hactive slot' hslot']
      by_cases hlast : slot' = moved
      · simp [hlast, storedPos]
      · simp [hlast]
    · -- The member that leaves is the last one.
      have hlt : pos < g.members.length := (List.getElem?_eq_some_iff.mp hat).1
      have hend : pos = g.members.length - 1 := by omega
      rw [hend, hmoved, Option.some.injEq] at hat
      rw [if_neg hmid, if_neg (by rw [hat]; exact hsame), h.positions hactive slot' hslot']

end Leaves

theorem removeFrom_simulates (h : GroupAt cfg p id g) (hactive : g.active = true)
    (hwhole : g.Whole) (hcapacity : g.memberCapacity ≤ memberWidth cfg)
    (hmembers : ∀ i ∈ g.members, i < cfg.maxClients) (hslot : slot < cfg.maxClients) :
    Simulates cfg p id (p.removeFrom id slot) (g.remove slot) := by
  cases hpos : g.slotToPos slot with
  | none =>
    have hrefused : p.removeFrom id slot = (false, p) := by
      simp only [GroupPool.removeFrom, h.group, storedGroup, hactive, if_true,
        h.read hactive hslot, hpos, storedPos]
      rw [if_neg (by omega), if_pos (by decide)]
    rw [hrefused, IndexedGroup.remove, hpos]
    exact .refused h
  | some pos =>
    have hat := (hwhole.index slot pos).mp hpos
    have hlt : pos < g.members.length := (List.getElem?_eq_some_iff.mp hat).1
    obtain ⟨moved, hmoved⟩ : ∃ i, g.members[g.members.length - 1]? = some i :=
      ⟨_, List.getElem?_eq_getElem (by omega)⟩
    have hmovedSlot : moved < cfg.maxClients := hmembers moved (List.mem_of_getElem? hmoved)
    have hroom : g.members.length ≤ memberWidth cfg := hwhole.room.trans hcapacity
    have hremove : g.remove slot = (true, { g with
        members := (swapOut 0 g.members g.slotToPos slot pos).1
        slotToPos := (swapOut 0 g.members g.slotToPos slot pos).2 }) := by
      simp only [IndexedGroup.remove, hpos, swapOut]
    rw [removeFrom_eq h hactive hwhole hslot hpos hmoved, hremove]
    refine ⟨rfl, GroupPool.stored_at ?_ ?_, GroupPool.stored_only ?_ ?_, rfl⟩
    · exact fun _ q slot' hq => entries_leave h hactive slot hroom hlt hmoved hq
    · exact fun _ slot' hslot' => positions_leave h hactive hslot hat hmoved hmovedSlot hslot'
    · intro j hj q hq
      split
      · exact update_other_row _ _ (by omega) hq hj
      · rfl
    · intro j hj slot' hslot'
      rw [update_other_row _ _ hslot hslot' hj]
      split
      · exact update_other_row _ _ hmovedSlot hslot' hj
      · rfl

theorem hasIn_eq (h : GroupAt cfg p id g) (hidle : g.active = false → g.slotToPos slot = none)
    (hslot : slot < cfg.maxClients) : p.hasIn id slot = g.has slot := by
  cases hactive : g.active with
  | true =>
    simp only [GroupPool.hasIn, h.group, storedGroup, hactive, if_true, h.read hactive hslot,
      IndexedGroup.has]
    cases g.slotToPos slot with
    | none => simp [storedPos]
    | some pos => simp [storedPos]
  | false => simp [GroupPool.hasIn, h.group, storedGroup, hactive, IndexedGroup.has, hidle hactive]

theorem init_at (p : GroupPool) (id : Nat) :
    GroupAt cfg (p.init id cfg.maxClients (memberWidth cfg)) id (.init (memberWidth cfg)) ∧
      OnlyGroup cfg id p (p.init id cfg.maxClients (memberWidth cfg)) := by
  have heq : p.init id cfg.maxClients (memberWidth cfg) =
      p.stored cfg id (.init (memberWidth cfg)) p.memberPool
        (store p.slotPool (id * cfg.maxClients : Nat) cfg.maxClients fun _ => -1) := by
    simp [GroupPool.init, GroupPool.stored, GroupPool.setGroup, storedGroup, IndexedGroup.init]
  rw [heq]
  refine ⟨GroupPool.stored_at ?_ ?_, GroupPool.stored_only ?_ ?_⟩
  · intro _ q slot hq
    simp [IndexedGroup.init] at hq
  · intro _ slot hslot
    rw [store, rowAt, if_pos (by omega)]
    rfl
  · exact fun j _ q _ => rfl
  · intro j hj slot hslot
    exact store_of_not_mem _ _ (rowAt_not_mem hslot hj)

theorem reset_at (h : GroupAt cfg p id g) (hmembers : ∀ i ∈ g.members, i < cfg.maxClients) :
    GroupAt cfg (p.reset id) id .reset ∧ OnlyGroup cfg id p (p.reset id) := by
  have hnone : ∀ memberPool slotPool,
      GroupAt cfg (p.stored cfg id .reset memberPool slotPool) id .reset :=
    fun _ _ => GroupPool.stored_at nofun nofun
  cases hactive : g.active with
  | false =>
    have heq : p.reset id = p.stored cfg id .reset p.memberPool p.slotPool := by
      simp [GroupPool.reset, h.group, storedGroup, hactive, GroupPool.stored,
        GroupPool.setGroup, IndexedGroup.reset]
    rw [heq]
    exact ⟨hnone _ _, GroupPool.stored_only (fun _ _ _ _ => rfl) fun _ _ _ _ => rfl⟩
  | true =>
    have heq : p.reset id = p.stored cfg id .reset p.memberPool
        ((List.range g.members.length).foldl (fun slotPool (i : Nat) =>
          Function.update slotPool ((id * cfg.maxClients : Nat) +
            p.memberPool (rowAt (memberWidth cfg) id i)) (-1)) p.slotPool) := by
      simp [GroupPool.reset, h.group, storedGroup, hactive, GroupPool.stored,
        GroupPool.setGroup, IndexedGroup.reset, rowAt]
    rw [heq]
    refine ⟨hnone _ _, GroupPool.stored_only (fun _ _ _ _ => rfl) ?_⟩
    intro j hj slot hslot
    refine foldl_update_other_row _ _ hslot hj _ _ ?_
    intro q hq
    obtain ⟨i, hat⟩ : ∃ i, g.members[q]? = some i :=
      ⟨_, List.getElem?_eq_getElem (List.mem_range.mp hq)⟩
    refine ⟨i, hmembers i (List.mem_of_getElem? hat), ?_⟩
    rw [h.entries hactive q i hat, rowAt]

theorem removeFrom_negative (p : GroupPool) (id : Nat) {slot : Int} (hslot : slot < 0) :
    p.removeFrom id slot = (false, p) := by
  simp only [GroupPool.removeFrom]
  split
  · rw [if_pos hslot]
  · rfl

theorem hasIn_negative (p : GroupPool) (id : Nat) {slot : Int} (hslot : slot < 0) :
    p.hasIn id slot = false := by
  simp only [GroupPool.hasIn]
  split
  · rfl
  · simp [Int.not_le.mpr hslot]

end OneGroup

/-! ### All groups -/

/-- The pool stores the table, and the members are slots of the server. -/
structure PoolHolds (cfg : ServerConfig) (maxGroups : Nat) (p : GroupPool) (t : GroupTable) :
    Prop where
  groups : ∀ id, GroupAt cfg p id (t.groups id)
  free : p.freeGroups = t.freeGroups
  whole : GroupsWhole cfg maxGroups (· < cfg.maxClients) t

namespace PoolHolds

variable {p p' : GroupPool} {t : GroupTable} {id : Nat}

theorem start (cfg : ServerConfig) (maxGroups : Nat) (memberPool slotPool : Int → Int) :
    PoolHolds cfg maxGroups (.start maxGroups memberPool slotPool) (.start maxGroups) :=
  ⟨fun _ => ⟨rfl, nofun, nofun⟩, rfl, .start cfg maxGroups _⟩

theorem active (h : PoolHolds cfg maxGroups p t) (id : Nat) :
    (p.groups id).active = (t.groups id).active := by
  rw [(h.groups id).group, storedGroup]
  cases (t.groups id).active with
  | true => rfl
  | false => rfl

theorem room (h : PoolHolds cfg maxGroups p t) (id : Nat) :
    (t.groups id).members.length ≤ memberWidth cfg :=
  (h.whole.whole id).room.trans (h.whole.capacity id)

theorem replace (h : PoolHolds cfg maxGroups p t) {g : IndexedGroup} (hat : GroupAt cfg p' id g)
    (honly : OnlyGroup cfg id p p') (j : Nat) :
    GroupAt cfg p' j ((t.setGroup id g).groups j) := by
  show GroupAt cfg p' j (Function.update t.groups id g j)
  by_cases hj : j = id
  · rw [hj, Function.update_self]
    exact hat
  · rw [Function.update_of_ne hj]
    exact (h.groups j).frame honly hj (h.room j)

theorem inUse_iff (h : PoolHolds cfg maxGroups p t) (groupId : Int) :
    p.inUse maxGroups groupId = true ↔
      ∃ id, groupId = (id : Nat) ∧ id < maxGroups ∧ (t.groups id).active = true := by
  simp only [GroupPool.inUse, Bool.and_eq_true, decide_eq_true_eq, h.active]
  constructor
  · intro huse
    exact ⟨groupId.toNat, by omega, by omega, huse.2⟩
  · rintro ⟨id, rfl, hid, huse⟩
    exact ⟨⟨by omega, by omega⟩, huse⟩

theorem create (h : PoolHolds cfg maxGroups p t) :
    PoolHolds cfg maxGroups (p.create cfg).2 (t.create cfg).2 := by
  have hwhole := h.whole.create
  cases hfree : t.freeGroups with
  | nil =>
    simp only [GroupPool.create, GroupTable.create, h.free, hfree]
    exact h
  | cons id rest =>
    simp only [GroupPool.create, GroupTable.create, h.free, hfree] at hwhole ⊢
    obtain ⟨hat, honly⟩ :
        GroupAt cfg (p.init id cfg.maxClients (memberWidth cfg)) id (.init (memberWidth cfg)) ∧
          OnlyGroup cfg id p (p.init id cfg.maxClients (memberWidth cfg)) := init_at p id
    refine ⟨fun j => ?_, rfl, hwhole⟩
    obtain ⟨hgroup, hentries, hpositions⟩ := h.replace hat honly j
    exact ⟨hgroup, hentries, hpositions⟩

theorem used {t : GroupTable} (hid : id < maxGroups) (hactive : (t.groups id).active = true) :
    ¬ (maxGroups ≤ id ∨ (t.groups id).active = false) := by
  rw [hactive]
  simp [hid]

/-- A call for a group that is not in use does nothing to the table either. -/
theorem unused (h : PoolHolds cfg maxGroups p t) {groupId : Int}
    (huse : ¬ p.inUse maxGroups groupId = true) (hid : 0 ≤ groupId) :
    maxGroups ≤ groupId.toNat ∨ (t.groups groupId.toNat).active = false := by
  by_contra hboth
  rw [not_or, Bool.not_eq_false] at hboth
  exact huse ((h.inUse_iff groupId).mpr ⟨groupId.toNat, by omega, by omega, hboth.2⟩)

theorem destroy (h : PoolHolds cfg maxGroups p t) (groupId : Int) :
    PoolHolds cfg maxGroups (p.destroy maxGroups groupId)
      (if groupId < 0 then t else t.destroy maxGroups groupId.toNat) := by
  rw [GroupPool.destroy]
  by_cases huse : p.inUse maxGroups groupId = true
  · rw [if_pos huse]
    obtain ⟨id, rfl, hid, hactive⟩ := (h.inUse_iff groupId).mp huse
    have hwhole := h.whole.destroy id
    obtain ⟨hat, honly⟩ := reset_at (h.groups id) (h.whole.members id)
    rw [if_neg (by omega), Int.toNat_natCast]
    rw [GroupTable.destroy, if_neg (used hid hactive)] at hwhole ⊢
    refine ⟨fun j => ?_, by rw [h.free], hwhole⟩
    obtain ⟨hgroup, hentries, hpositions⟩ := h.replace hat honly j
    exact ⟨hgroup, hentries, hpositions⟩
  · rw [if_neg huse]
    split
    · exact h
    · rw [GroupTable.destroy, if_pos (h.unused huse (by omega))]
      exact h

theorem simulated (h : PoolHolds cfg maxGroups p t) {pooled : Bool × GroupPool}
    {table : Bool × IndexedGroup} (hsim : Simulates cfg p id pooled table)
    (hwhole : GroupsWhole cfg maxGroups (· < cfg.maxClients) (t.setGroup id table.2)) :
    PoolHolds cfg maxGroups pooled.2 (t.setGroup id table.2) :=
  ⟨h.replace hsim.group hsim.only, hsim.free.trans h.free, hwhole⟩

theorem add (h : PoolHolds cfg maxGroups p t) (s : Server Key) (groupId clientIndex : Int) :
    PoolHolds cfg maxGroups (p.add cfg maxGroups s groupId clientIndex).2
      (if groupId < 0 ∨ clientIndex < 0 then t
        else (t.add cfg maxGroups s groupId.toNat clientIndex.toNat).2) := by
  rw [GroupPool.add]
  by_cases huse : p.inUse maxGroups groupId = true
  · rw [if_neg (by simp [huse])]
    obtain ⟨id, rfl, hid, hactive⟩ := (h.inUse_iff groupId).mp huse
    by_cases hnegative : clientIndex < 0
    · rw [if_pos (Or.inl hnegative), if_pos (Or.inr hnegative)]
      exact h
    · obtain ⟨slot, rfl⟩ := Int.eq_ofNat_of_zero_le (Int.not_lt.mp hnegative)
      have hwhole := h.whole.add (s := s) (fun i hi _ => hi) id slot
      rw [if_neg (by omega : ¬ ((id : Int) < 0 ∨ (slot : Int) < 0)), Int.toNat_natCast,
        Int.toNat_natCast]
      simp only [GroupTable.add, if_neg (used hid hactive)] at hwhole ⊢
      by_cases hrange : cfg.maxClients ≤ slot
      · rw [if_pos (by omega), if_pos hrange]
        exact h
      · rw [if_neg (by omega), if_neg hrange]
        rw [if_neg hrange] at hwhole
        by_cases hidle : (s.connections slot).active = false
        · rw [if_pos hidle, if_pos hidle]
          exact h
        · rw [if_neg hidle, if_neg hidle]
          rw [if_neg hidle] at hwhole
          exact h.simulated (addTo_simulates (h.groups id) hactive (h.whole.capacity id)
            (Nat.lt_of_not_le hrange)) hwhole
  · rw [if_pos (by simp [huse])]
    split
    · exact h
    · rw [GroupTable.add, if_pos (h.unused huse (by omega))]
      exact h

theorem leave (h : PoolHolds cfg maxGroups p t) {slot : Nat} (hslot : slot < cfg.maxClients)
    (hid : id < maxGroups) (hactive : (t.groups id).active = true) :
    Simulates cfg p id (p.removeFrom id slot) ((t.groups id).remove slot) ∧
      PoolHolds cfg maxGroups (p.removeFrom id slot).2
        (t.setGroup id ((t.groups id).remove slot).2) := by
  have hwhole := h.whole.remove id slot
  rw [GroupTable.remove, if_neg (used hid hactive)] at hwhole
  have hsim := removeFrom_simulates (h.groups id) hactive (h.whole.whole id)
    (h.whole.capacity id) (h.whole.members id) hslot
  exact ⟨hsim, h.simulated hsim hwhole⟩

theorem remove (h : PoolHolds cfg maxGroups p t) (groupId : Int) {clientIndex : Int}
    (hclient : clientIndex < cfg.maxClients) :
    PoolHolds cfg maxGroups (p.remove maxGroups groupId clientIndex).2
      (if groupId < 0 ∨ clientIndex < 0 then t
        else (t.remove maxGroups groupId.toNat clientIndex.toNat).2) := by
  rw [GroupPool.remove]
  by_cases huse : p.inUse maxGroups groupId = true
  · rw [if_neg (by simp [huse])]
    obtain ⟨id, rfl, hid, hactive⟩ := (h.inUse_iff groupId).mp huse
    by_cases hnegative : clientIndex < 0
    · rw [if_pos (Or.inr hnegative), removeFrom_negative p _ hnegative]
      exact h
    · obtain ⟨slot, rfl⟩ := Int.eq_ofNat_of_zero_le (Int.not_lt.mp hnegative)
      rw [if_neg (by omega : ¬ ((id : Int) < 0 ∨ (slot : Int) < 0)), Int.toNat_natCast,
        Int.toNat_natCast, GroupTable.remove, if_neg (used hid hactive)]
      exact (h.leave (by omega) hid hactive).2
  · rw [if_pos (by simp [huse])]
    split
    · exact h
    · rw [GroupTable.remove, if_pos (h.unused huse (by omega))]
      exact h

/-- The slot has left the groups up to one, and leaves that. -/
theorem forget_succ (t : GroupTable) (slot n : Nat) :
    t.forget (n + 1) slot =
      if (t.groups n).active = true then
        (t.forget n slot).setGroup n (((t.forget n slot).groups n).remove slot).2
      else t.forget n slot := by
  have hself : (t.forget n slot).groups n = t.groups n := by simp [GroupTable.forget]
  split
  · rename_i hactive
    rw [hself]
    simp only [GroupTable.forget, GroupTable.setGroup, GroupTable.mk.injEq, and_true]
    funext j
    by_cases hj : j = n
    · rw [hj, Function.update_self, if_pos ⟨Nat.lt_succ_self n, hactive⟩]
    · rw [Function.update_of_ne hj]
      have hlt : j < n + 1 ↔ j < n := by omega
      simp only [hlt]
  · rename_i hidle
    simp only [GroupTable.forget, GroupTable.mk.injEq, and_true]
    funext j
    by_cases hj : j = n
    · rw [hj]
      simp [hidle]
    · have hlt : j < n + 1 ↔ j < n := by omega
      simp only [hlt]

theorem forget (h : PoolHolds cfg maxGroups p t) {slot : Nat} (hslot : slot < cfg.maxClients) :
    PoolHolds cfg maxGroups (p.forget maxGroups slot) (t.forget maxGroups slot) := by
  have hupTo : ∀ n ≤ maxGroups, PoolHolds cfg maxGroups
      ((List.range n).foldl (fun p id =>
        if (p.groups id).active then (p.removeFrom id slot).2 else p) p) (t.forget n slot) := by
    intro n
    induction n with
    | zero =>
      intro _
      have hnone : t.forget 0 slot = t := by simp [GroupTable.forget]
      rw [hnone]
      exact h
    | succ n ih =>
      intro hn
      have hbefore := ih (by omega)
      have hactive := hbefore.active n
      have hself : (t.forget n slot).groups n = t.groups n := by simp [GroupTable.forget]
      rw [hself] at hactive
      rw [List.range_succ, List.foldl_append, List.foldl_cons, List.foldl_nil, hactive,
        forget_succ]
      split
      · rename_i huse
        exact (hbefore.leave hslot (by omega) (by rw [hself]; exact huse)).2
      · exact hbefore
  exact hupTo maxGroups (Nat.le_refl _)

end PoolHolds

/-- The call on the table.  Negative ids and indices, which the table does not have, do
nothing. -/
def groupTableStep (cfg : ServerConfig) (maxGroups : Nat) (t : GroupTable) :
    GroupCall Key → GroupTable
  | .create => (t.create cfg).2
  | .destroy groupId => if groupId < 0 then t else t.destroy maxGroups groupId.toNat
  | .add s groupId clientIndex =>
    if groupId < 0 ∨ clientIndex < 0 then t
    else (t.add cfg maxGroups s groupId.toNat clientIndex.toNat).2
  | .remove groupId clientIndex =>
    if groupId < 0 ∨ clientIndex < 0 then t
    else (t.remove maxGroups groupId.toNat clientIndex.toNat).2
  | .forget slot => t.forget maxGroups slot

/-- A member that is taken out, or a slot that is released, is a slot of the server. -/
def InTable (cfg : ServerConfig) : GroupCall Key → Prop
  | .remove _ clientIndex => clientIndex < cfg.maxClients
  | .forget slot => slot < cfg.maxClients
  | _ => True

instance (call : GroupCall Key) : Decidable (InTable cfg call) := by
  cases call <;> dsimp only [InTable] <;> infer_instance

theorem poolHolds_step {p : GroupPool} {t : GroupTable} (h : PoolHolds cfg maxGroups p t)
    {call : GroupCall Key} (hcall : InTable cfg call) :
    PoolHolds cfg maxGroups (groupPoolStep cfg maxGroups p call)
      (groupTableStep cfg maxGroups t call) := by
  cases call with
  | create => exact h.create
  | destroy groupId => exact h.destroy groupId
  | add s groupId clientIndex => exact h.add s groupId clientIndex
  | remove groupId clientIndex => exact h.remove groupId hcall
  | forget slot => exact h.forget hcall

/-- **The pool stores the table of groups throughout a run.** -/
theorem poolHolds_run (memberPool slotPool : Int → Int) (es : List (GroupCall Key))
    (hcalls : ∀ call ∈ es, InTable cfg call) :
    PoolHolds cfg maxGroups
      (run (groupPoolStep cfg maxGroups) (.start maxGroups memberPool slotPool) es)
      (run (groupTableStep cfg maxGroups) (.start maxGroups) es) := by
  induction es using List.reverseRecOn with
  | nil => exact .start cfg maxGroups memberPool slotPool
  | append_singleton es call ih =>
    rw [run_append, run_append]
    exact poolHolds_step (ih fun c hc => hcalls c (List.mem_append_left _ hc))
      (hcalls call (by simp))

/-! ### Isolation -/

/-- The members of a group as `netudp_group_send` goes through them. -/
def GroupPool.membership (p : GroupPool) (id : Nat) : List Int :=
  (List.range (p.groups id).memberCount.toNat).map fun q : Nat =>
    p.memberPool ((p.groups id).members.getD 0 + q)

section Isolation

variable {p : GroupPool} {t : GroupTable}

theorem PoolHolds.membership_eq (h : PoolHolds cfg maxGroups p t) (id : Nat) :
    p.membership id = (t.groups id).members.map fun slot : Nat => (slot : Int) := by
  cases hactive : (t.groups id).active with
  | false =>
    rw [h.whole.idle id hactive, GroupPool.membership, (h.groups id).group]
    simp [storedGroup, hactive]
  | true =>
    rw [GroupPool.membership, (h.groups id).group]
    simp only [storedGroup, hactive, if_true, Int.toNat_natCast, Option.getD_some]
    refine List.ext_getElem (by simp) fun q hq _ => ?_
    rw [List.length_map, List.length_range] at hq
    rw [List.getElem_map, List.getElem_map, List.getElem_range]
    exact (h.groups id).entries hactive q _ (List.getElem?_eq_getElem hq)

theorem PoolHolds.mem_membership (h : PoolHolds cfg maxGroups p t) (id slot : Nat) :
    (slot : Int) ∈ p.membership id ↔ ((t.groups id).slotToPos slot).isSome = true := by
  rw [h.membership_eq, Option.isSome_iff_exists, ← (h.whole.whole id).index.mem_iff]
  simp

theorem PoolHolds.nonneg_of_mem (h : PoolHolds cfg maxGroups p t) {id : Nat} {c : Int}
    (hc : c ∈ p.membership id) : 0 ≤ c := by
  rw [h.membership_eq, List.mem_map] at hc
  obtain ⟨slot, -, rfl⟩ := hc
  exact Int.natCast_nonneg slot

/-- A group that is not in use has no members. -/
theorem PoolHolds.members_unused (h : PoolHolds cfg maxGroups p t) {id : Nat}
    (hunused : maxGroups ≤ id ∨ (t.groups id).active = false) : (t.groups id).members = [] := by
  refine h.whole.idle id ?_
  rcases hunused with hid | hidle
  · by_contra hactive
    have hlt := h.whole.range id (by simpa using hactive)
    omega
  · exact hidle

/-- What `netudp_group_has` says of an index up to the last client's. -/
theorem PoolHolds.has_iff (h : PoolHolds cfg maxGroups p t) (groupId : Int) {clientIndex : Int}
    (hclient : clientIndex < cfg.maxClients) :
    p.has maxGroups groupId clientIndex = true ↔
      0 ≤ groupId ∧ groupId < maxGroups ∧ clientIndex ∈ p.membership groupId.toNat := by
  rw [GroupPool.has]
  by_cases hrange : groupId < 0 ∨ maxGroups ≤ groupId
  · rw [if_pos hrange]
    simp only [Bool.false_eq_true, false_iff]
    omega
  · rw [if_neg hrange, ← and_assoc, and_iff_right (by omega)]
    by_cases hnegative : clientIndex < 0
    · rw [hasIn_negative p _ hnegative]
      simp only [Bool.false_eq_true, false_iff]
      intro hmem
      have hnonneg := h.nonneg_of_mem hmem
      omega
    · obtain ⟨slot, rfl⟩ := Int.eq_ofNat_of_zero_le (Int.not_lt.mp hnegative)
      have hidle : (t.groups groupId.toNat).active = false →
          (t.groups groupId.toNat).slotToPos slot = none := by
        intro hactive
        rw [(h.whole.whole _).index.eq_none_iff, h.whole.idle _ hactive]
        exact List.not_mem_nil
      rw [hasIn_eq (h.groups groupId.toNat) hidle (by omega), IndexedGroup.has, h.mem_membership]

/-- `netudp_group_remove` succeeds for the members. -/
theorem PoolHolds.remove_ok_iff (h : PoolHolds cfg maxGroups p t) (groupId : Int)
    {clientIndex : Int} (hclient : clientIndex < cfg.maxClients) :
    (p.remove maxGroups groupId clientIndex).1 = .ok ↔
      0 ≤ groupId ∧ groupId < maxGroups ∧ clientIndex ∈ p.membership groupId.toNat := by
  rw [GroupPool.remove]
  by_cases huse : p.inUse maxGroups groupId = true
  · rw [if_neg (by simp [huse])]
    obtain ⟨id, rfl, hid, hactive⟩ := (h.inUse_iff groupId).mp huse
    rw [← and_assoc, and_iff_right (by omega), Int.toNat_natCast]
    by_cases hnegative : clientIndex < 0
    · rw [removeFrom_negative p _ hnegative]
      simp only [Bool.false_eq_true, if_false, reduceCtorEq, false_iff]
      intro hmem
      have hnonneg := h.nonneg_of_mem hmem
      omega
    · obtain ⟨slot, rfl⟩ := Int.eq_ofNat_of_zero_le (Int.not_lt.mp hnegative)
      have hslot : slot < cfg.maxClients := by omega
      have hresult := (h.leave hslot hid hactive).1.result
      rw [h.mem_membership]
      simp only [hresult, IndexedGroup.remove]
      cases (t.groups id).slotToPos slot with
      | none => simp
      | some pos => simp
  · rw [if_pos (by simp [huse])]
    simp only [reduceCtorEq, false_iff]
    rintro ⟨hlow, -, hmem⟩
    rw [h.membership_eq, h.members_unused (h.unused huse hlow)] at hmem
    simp at hmem

/-- A removal is not seen in the other groups. -/
theorem PoolHolds.remove_other (h : PoolHolds cfg maxGroups p t) (groupId : Int)
    {clientIndex : Int} (hclient : clientIndex < cfg.maxClients) {id : Nat}
    (hid : (id : Int) ≠ groupId) :
    (p.remove maxGroups groupId clientIndex).2.membership id = p.membership id := by
  rw [(h.remove groupId hclient).membership_eq, h.membership_eq]
  split
  · rfl
  · have hne : id ≠ groupId.toNat := by omega
    rw [GroupTable.remove]
    split
    · rfl
    · simp only [GroupTable.setGroup]
      rw [Function.update_of_ne hne]

/-- In its own group the member is gone, and every other one is still there. -/
theorem PoolHolds.remove_own (h : PoolHolds cfg maxGroups p t) (id : Nat)
    {clientIndex : Int} (hclient : clientIndex < cfg.maxClients) (c : Int) :
    c ∈ (p.remove maxGroups id clientIndex).2.membership id ↔
      c ≠ clientIndex ∧ c ∈ p.membership id := by
  have hafter := (h.remove (id : Int) hclient).membership_eq id
  by_cases hnegative : clientIndex < 0
  · rw [if_pos (Or.inr hnegative), ← h.membership_eq] at hafter
    rw [hafter, iff_and_self]
    intro hmem
    have hnonneg := h.nonneg_of_mem hmem
    omega
  · obtain ⟨slot, rfl⟩ := Int.eq_ofNat_of_zero_le (Int.not_lt.mp hnegative)
    rw [if_neg (by omega), Int.toNat_natCast, Int.toNat_natCast, GroupTable.remove] at hafter
    rw [hafter, h.membership_eq]
    by_cases hunused : maxGroups ≤ id ∨ (t.groups id).active = false
    · rw [if_pos hunused, h.members_unused hunused]
      simp
    · rw [if_neg hunused]
      simp only [GroupTable.setGroup, Function.update_self, List.mem_map,
        ((h.whole.whole id).remove slot).2.2]
      constructor
      · rintro ⟨i, ⟨hne, hi⟩, rfl⟩
        exact ⟨by omega, i, hi, rfl⟩
      · rintro ⟨hne, i, hi, rfl⟩
        exact ⟨i, ⟨by omega, hi⟩, rfl⟩

end Isolation

/-- **Calls on one group do not reach into another**, for every client index below
`max_clients`: after any run of calls with such indices, `netudp_group_has` and
`netudp_group_remove` look at the members of their own group, the removal takes the client
out of that group and leaves all others as they were, and with a negative index both find
nothing and change nothing. -/
theorem group_calls_isolated (cfg : ServerConfig) (maxGroups : Nat)
    (memberPool slotPool : Int → Int) (es : List (GroupCall Key))
    (hcalls : ∀ call ∈ es, InTable cfg call) (groupId clientIndex : Int)
    (hclient : clientIndex < cfg.maxClients) :
    let p := run (groupPoolStep cfg maxGroups) (.start maxGroups memberPool slotPool) es
    let after := p.remove maxGroups groupId clientIndex
    (p.has maxGroups groupId clientIndex = true ↔
      0 ≤ groupId ∧ groupId < maxGroups ∧ clientIndex ∈ p.membership groupId.toNat) ∧
    (after.1 = .ok ↔
      0 ≤ groupId ∧ groupId < maxGroups ∧ clientIndex ∈ p.membership groupId.toNat) ∧
    (∀ id : Nat, (id : Int) ≠ groupId → after.2.membership id = p.membership id) ∧
    (∀ id : Nat, (id : Int) = groupId → ∀ c,
      c ∈ after.2.membership id ↔ c ≠ clientIndex ∧ c ∈ p.membership id) ∧
    (clientIndex < 0 →
      p.has maxGroups groupId clientIndex = false ∧ after = (.invalidParam, p)) := by
  intro p after
  have h : PoolHolds cfg maxGroups p _ := poolHolds_run memberPool slotPool es hcalls
  refine ⟨h.has_iff groupId hclient, h.remove_ok_iff groupId hclient,
    fun id hid => h.remove_other groupId hclient hid, ?_, ?_⟩
  · rintro id rfl c
    exact h.remove_own id hclient c
  · intro hnegative
    constructor
    · rw [← Bool.not_eq_true, h.has_iff groupId hclient]
      rintro ⟨-, -, hmem⟩
      have hnonneg := h.nonneg_of_mem hmem
      omega
    · simp only [after, GroupPool.remove, removeFrom_negative p _ hnegative]
      split
      · rfl
      · rfl

/-- A server with a client in slot 0. -/
def servedClient : Server Nat :=
  Server.after toyCipher toyTokens toyServerConfig 0
    [.beginUpdate 1, .dispatch toyAddress (.request (toyRequest 0))]

/-- Two groups, and the client is in the second of them. -/
def twoGroups : List (GroupCall Nat) := [.create, .create, .add servedClient 1 0]

/-- In pools as they are found. -/
def twoGroupsPool : GroupPool :=
  run (groupPoolStep toyServerConfig 2) (.start 2 (fun _ => 77) fun _ => 77) twoGroups

/-- The client is a member of the second group and not of the first, and is taken out of the
second alone. -/
theorem two_groups_isolated :
    twoGroupsPool.has 2 1 0 = true ∧ twoGroupsPool.has 2 0 0 = false ∧
      (twoGroupsPool.remove 2 1 0).1 = .ok ∧
      (twoGroupsPool.remove 2 1 0).2.membership 0 = twoGroupsPool.membership 0 := by
  have hcalls : ∀ call ∈ twoGroups, InTable toyServerConfig call := by decide
  have hsecond := group_calls_isolated toyServerConfig 2 (fun _ => 77) (fun _ => 77) twoGroups
    hcalls 1 0 (by decide)
  have hmember : (0 : Int) ∈ twoGroupsPool.membership 1 := by decide +kernel
  refine ⟨hsecond.1.mpr ⟨by decide, by decide, hmember⟩, by decide +kernel,
    hsecond.2.1.mpr ⟨by decide, by decide, hmember⟩, hsecond.2.2.1 0 (by decide)⟩

/-- Index 2 of the first group, of two clients, is index 0 of the second: the first group has
it for a member and takes it out, and the second has lost its member. -/
theorem group_reaches_into_next :
    twoGroupsPool.has 2 0 2 = true ∧ (2 : Int) ∉ twoGroupsPool.membership 0 ∧
      (twoGroupsPool.remove 2 0 2).1 = .ok ∧
      ((twoGroupsPool.remove 2 0 2).2.groups 0).memberCount = -1 ∧
      twoGroupsPool.has 2 1 0 = true ∧
      (twoGroupsPool.remove 2 0 2).2.has 2 1 0 = false := by
  decide +kernel

end Netudp
