/-
Where the groups lie (`src/group/group.h`, and the group functions of `src/server.cpp`).

The members of all groups are in one array and their positions in another; a group has a
slice of each, and pointers to the beginning of its slices.  The client index of a call is
an `int` that is added to such a pointer.  The two arrays lie in memories that go on beyond
them.

`running`, which is only looked at when a group is created, is taken to be set.
-/
import Netudp.Lib.Memory
import Netudp.Lib.Rows
import Netudp.Server.Groups

namespace Netudp

open Lib

variable {Key : Type}

/-- `struct Group`, its pointers being positions in the two pools. -/
structure PooledGroup where
  active : Bool := false
  groupId : Int := -1
  members : Option Int := none
  memberCount : Int := 0
  memberCapacity : Int := 0
  slotToPos : Option Int := none

/-- `groups`, `group_free_stack` from its top, `group_member_pool` and `group_slot_pool`. -/
structure GroupPool where
  groups : Nat → PooledGroup
  freeGroups : List Nat
  memberPool : Int → Int
  slotPool : Int → Int

/-- What a call on a group returns. -/
inductive GroupResult where
  | ok
  | invalidParam
  | notConnected
  | noBuffers
deriving DecidableEq

namespace GroupPool

/-- The part of `netudp_server_start`, which finds the pools in memory as they are. -/
def start (maxGroups : Nat) (memberPool slotPool : Int → Int) : GroupPool where
  groups := fun _ => {}
  freeGroups := List.range maxGroups
  memberPool := memberPool
  slotPool := slotPool

/-- `groups[id]` assigned. -/
def setGroup (p : GroupPool) (id : Nat) (g : PooledGroup) : GroupPool :=
  { p with groups := Function.update p.groups id g }

/-! ### A group -/

/-- `Group::add`. -/
def addTo (p : GroupPool) (id : Nat) (slot : Int) : Bool × GroupPool :=
  let g := p.groups id
  match g.slotToPos, g.members with
  | some slotToPos, some members =>
    if slot < 0 then (false, p)
    else if 0 ≤ p.slotPool (slotToPos + slot) then (false, p)
    else if g.memberCapacity ≤ g.memberCount then (false, p)
    else
      (true, { p.setGroup id { g with memberCount := g.memberCount + 1 } with
        slotPool := Function.update p.slotPool (slotToPos + slot) g.memberCount
        memberPool := Function.update p.memberPool (members + g.memberCount) slot })
  | _, _ => (false, p)

/-- `Group::remove`. -/
def removeFrom (p : GroupPool) (id : Nat) (slot : Int) : Bool × GroupPool :=
  let g := p.groups id
  match g.slotToPos, g.members with
  | some slotToPos, some members =>
    if slot < 0 then (false, p)
    else
      let pos := p.slotPool (slotToPos + slot)
      if pos < 0 then (false, p)
      else
        let last := g.memberCount - 1
        let (memberPool, slotPool) :=
          if pos < last then
            let movedSlot := p.memberPool (members + last)
            (Function.update p.memberPool (members + pos) movedSlot,
              Function.update p.slotPool (slotToPos + movedSlot) pos)
          else (p.memberPool, p.slotPool)
        (true, { p.setGroup id { g with memberCount := last } with
          memberPool := memberPool
          slotPool := Function.update slotPool (slotToPos + slot) (-1) })
  | _, _ => (false, p)

/-- `Group::has`. -/
def hasIn (p : GroupPool) (id : Nat) (slot : Int) : Bool :=
  match (p.groups id).slotToPos with
  | none => false
  | some slotToPos => 0 ≤ slot && 0 ≤ p.slotPool (slotToPos + slot)

/-- `Group::init`. -/
def init (p : GroupPool) (id maxClients capacity : Nat) : GroupPool :=
  { p.setGroup id
      { active := true
        groupId := id
        members := some (id * capacity : Nat)
        memberCount := 0
        memberCapacity := capacity
        slotToPos := some (id * maxClients : Nat) } with
    slotPool := store p.slotPool (id * maxClients : Nat) maxClients fun _ => -1 }

/-- `Group::reset`, which clears the positions of the members before it lets go of them. -/
def reset (p : GroupPool) (id : Nat) : GroupPool :=
  let g := p.groups id
  match g.slotToPos, g.members with
  | some slotToPos, some members =>
    { p.setGroup id {} with
      slotPool := (List.range g.memberCount.toNat).foldl (fun slotPool (i : Nat) =>
        Function.update slotPool (slotToPos + p.memberPool (members + i)) (-1)) p.slotPool }
  | _, _ => p.setGroup id {}

/-! ### The API -/

/-- `netudp_group_create`. -/
def create (cfg : ServerConfig) (p : GroupPool) : Int × GroupPool :=
  match p.freeGroups with
  | [] => (-1, p)
  | idx :: rest =>
    (idx, { p.init idx cfg.maxClients (min cfg.maxClients maxGroupMembers) with
      freeGroups := rest })

/-- The group a call is for, if the id is one of a group in use. -/
def inUse (maxGroups : Nat) (p : GroupPool) (groupId : Int) : Bool :=
  0 ≤ groupId && groupId < maxGroups && (p.groups groupId.toNat).active

/-- `netudp_group_destroy`. -/
def destroy (maxGroups : Nat) (p : GroupPool) (groupId : Int) : GroupPool :=
  if p.inUse maxGroups groupId then
    { p.reset groupId.toNat with freeGroups := groupId.toNat :: p.freeGroups }
  else p

/-- `netudp_group_add`. -/
def add (cfg : ServerConfig) (maxGroups : Nat) (s : Server Key) (p : GroupPool)
    (groupId clientIndex : Int) : GroupResult × GroupPool :=
  if !p.inUse maxGroups groupId then (.invalidParam, p)
  else if clientIndex < 0 ∨ cfg.maxClients ≤ clientIndex then (.invalidParam, p)
  else if (s.connections clientIndex.toNat).active = false then (.notConnected, p)
  else
    let (ok, p) := p.addTo groupId.toNat clientIndex
    (if ok then .ok else .noBuffers, p)

/-- `netudp_group_remove`. -/
def remove (maxGroups : Nat) (p : GroupPool) (groupId clientIndex : Int) :
    GroupResult × GroupPool :=
  if !p.inUse maxGroups groupId then (.invalidParam, p)
  else
    let (ok, p) := p.removeFrom groupId.toNat clientIndex
    (if ok then .ok else .invalidParam, p)

/-- `netudp_group_has`, which does not look whether the group is in use. -/
def has (maxGroups : Nat) (p : GroupPool) (groupId clientIndex : Int) : Bool :=
  if groupId < 0 ∨ maxGroups ≤ groupId then false else p.hasIn groupId.toNat clientIndex

/-- The last part of `server_deactivate_slot`. -/
def forget (maxGroups : Nat) (p : GroupPool) (slot : Nat) : GroupPool :=
  (List.range maxGroups).foldl
    (fun p id => if (p.groups id).active then (p.removeFrom id slot).2 else p) p

end GroupPool

/-! ### Calls -/

/-- A call that changes the groups of a server, and the release of a slot. -/
inductive GroupCall (Key : Type) where
  | create
  | destroy (groupId : Int)
  | add (s : Server Key) (groupId clientIndex : Int)
  | remove (groupId clientIndex : Int)
  | forget (slot : Nat)

def groupPoolStep (cfg : ServerConfig) (maxGroups : Nat) (p : GroupPool) :
    GroupCall Key → GroupPool
  | .create => (p.create cfg).2
  | .destroy groupId => p.destroy maxGroups groupId
  | .add s groupId clientIndex => (p.add cfg maxGroups s groupId clientIndex).2
  | .remove groupId clientIndex => (p.remove maxGroups groupId clientIndex).2
  | .forget slot => p.forget maxGroups slot

end Netudp
