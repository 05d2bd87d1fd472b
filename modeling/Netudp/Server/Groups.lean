/-
Multicast groups (`src/group/group.h`, and the group functions of `src/server.cpp`).

A group is a list of client slots with the position of each in it, so that a member can
be taken out in constant time: the last one takes its place.  The ids of groups that are
not in use wait on a stack.

A slot that is released leaves every group.  Which slots an event of the server releases
is read off the event; `server_deactivate_slot` returns early for a slot that is not
active, and such a slot is never released.

The pools the members and positions of the groups lie in are as many arrays.  A position
is looked up for a slot of the server; one outside the table has none in the model.
-/
import Netudp.Server.Replicate

namespace Netudp

open Lib

variable {Key Ct : Type}

/-! ### A group -/

/-- `struct Group`, with the positions of the members. -/
structure IndexedGroup extends Group where
  memberCapacity : Nat
  slotToPos : Nat → Option Nat

namespace IndexedGroup

/-- A group as constructed, and after `reset`. -/
def reset : IndexedGroup := ⟨⟨false, []⟩, 0, fun _ => none⟩

/-- `init`. -/
def init (capacity : Nat) : IndexedGroup := ⟨⟨true, []⟩, capacity, fun _ => none⟩

/-- `add`. -/
def add (g : IndexedGroup) (slot : Nat) : Bool × IndexedGroup :=
  if (g.slotToPos slot).isSome then (false, g)
  else if g.memberCapacity ≤ g.members.length then (false, g)
  else
    (true, { g with
      slotToPos := Function.update g.slotToPos slot (some g.members.length)
      members := g.members ++ [slot] })

/-- `remove`: the last member takes the place of the one that leaves. -/
def remove (g : IndexedGroup) (slot : Nat) : Bool × IndexedGroup :=
  match g.slotToPos slot with
  | none => (false, g)
  | some pos =>
    let last := g.members.length - 1
    let (members, slotToPos) :=
      if pos < last then
        let movedSlot := g.members.getD last 0
        (g.members.set pos movedSlot, Function.update g.slotToPos movedSlot (some pos))
      else (g.members, g.slotToPos)
    (true, { g with
      members := members.take last
      slotToPos := Function.update slotToPos slot none })

/-- `has`. -/
def has (g : IndexedGroup) (slot : Nat) : Bool := (g.slotToPos slot).isSome

end IndexedGroup

/-! ### All groups -/

/-- `kMaxGroupMembers`. -/
def maxGroupMembers : Nat := 8192

/-- The groups of the server and the ids that are free, from the top of the stack. -/
structure GroupTable where
  groups : Nat → IndexedGroup
  freeGroups : List Nat

namespace GroupTable

/-- The part of `netudp_server_start`. -/
def start (maxGroups : Nat) : GroupTable := ⟨fun _ => .reset, List.range maxGroups⟩

/-- `groups[id]` assigned. -/
def setGroup (t : GroupTable) (id : Nat) (g : IndexedGroup) : GroupTable :=
  { t with groups := Function.update t.groups id g }

/-- `netudp_group_create`; `none` is `-1`. -/
def create (cfg : ServerConfig) (t : GroupTable) : Option Nat × GroupTable :=
  match t.freeGroups with
  | [] => (none, t)
  | idx :: rest =>
    (some idx, { setGroup t idx (.init (min cfg.maxClients maxGroupMembers)) with
      freeGroups := rest })

/-- `netudp_group_destroy`. -/
def destroy (maxGroups : Nat) (t : GroupTable) (id : Nat) : GroupTable :=
  if maxGroups ≤ id ∨ (t.groups id).active = false then t
  else { t.setGroup id .reset with freeGroups := id :: t.freeGroups }

/-- `netudp_group_add`; `true` is `NETUDP_OK`. -/
def add (cfg : ServerConfig) (maxGroups : Nat) (s : Server Key) (t : GroupTable)
    (id client : Nat) : Bool × GroupTable :=
  if maxGroups ≤ id ∨ (t.groups id).active = false then (false, t)
  else if cfg.maxClients ≤ client then (false, t)
  else if (s.connections client).active = false then (false, t)
  else
    let (ok, g) := (t.groups id).add client
    (ok, t.setGroup id g)

/-- `netudp_group_remove`. -/
def remove (maxGroups : Nat) (t : GroupTable) (id client : Nat) : Bool × GroupTable :=
  if maxGroups ≤ id ∨ (t.groups id).active = false then (false, t)
  else
    let (ok, g) := (t.groups id).remove client
    (ok, t.setGroup id g)

/-- The last part of `server_deactivate_slot`: the slot leaves every active group. -/
def forget (maxGroups : Nat) (t : GroupTable) (slot : Nat) : GroupTable :=
  { t with groups := fun id =>
      if id < maxGroups ∧ (t.groups id).active = true then ((t.groups id).remove slot).2
      else t.groups id }

end GroupTable

/-! ### Sending to a group -/

namespace Server

/-- The loop of `netudp_group_send`: one send for each member, with its result. -/
def sendEach (C : Primitives Key Ct) (cfg : ServerConfig) (channel : Nat) (data : Bytes)
    (flags : SendFlags) : Server Key → List Nat → List (Nat × SendResult) × Server Key
  | s, [] => ([], s)
  | s, client :: rest =>
    let (result, s) := s.send C cfg client channel data flags
    let (results, s) := sendEach C cfg channel data flags s rest
    ((client, result) :: results, s)

/-- `netudp_group_send`. -/
def groupSend (C : Primitives Key Ct) (cfg : ServerConfig) (maxGroups : Nat) (t : GroupTable)
    (s : Server Key) (id channel : Nat) (data : Bytes) (flags : SendFlags) :
    List (Nat × SendResult) × Server Key :=
  if maxGroups ≤ id ∨ (t.groups id).active = false then ([], s)
  else s.sendEach C cfg channel data flags (t.groups id).members

/-- `netudp_server_broadcast_except`, and `netudp_server_broadcast` with an index no client
has.  A send leaves the active list alone. -/
def broadcast (C : Primitives Key Ct) (cfg : ServerConfig) (s : Server Key) (except : Int)
    (channel : Nat) (data : Bytes) (flags : SendFlags) : List (Nat × SendResult) × Server Key :=
  s.sendEach C cfg channel data flags (s.activeSlots.filter fun slot : Nat => slot ≠ except)

/-! ### Released slots -/

/-- The slots the timeout check releases, in the order it does; see `checkTimeouts`. -/
def timedOutSlots (C : Primitives Key Ct) : Nat → Nat → Server Key → List Nat
  | 0, _, _ => []
  | fuel + 1, a, s =>
    match s.activeSlots[a]? with
    | none => []
    | some slot =>
      if (s.connections slot).timedOut s.currentTime then
        slot :: timedOutSlots C fuel a (s.release C slot)
      else timedOutSlots C fuel (a + 1) s

/-- The slots an event releases: by a DISCONNECT frame, or by the timeout check. -/
def releases (C : Primitives Key Ct) (cfg : ServerConfig) (s : Server Key) :
    ServerEvent Ct → List Nat
  | .dispatch from_ (.data wireSlot packet) =>
    if isDataPrefix packet.prefixByte then
      match s.findSlot cfg from_ wireSlot (C.ctLen packet.ct) with
      | none => []
      | some slot =>
        if (serverHandleDataPacket C cfg.protocolId s.currentTime (s.connections slot)
          packet).2 then [slot] else []
    else []
  | .finishUpdate => timedOutSlots C s.activeSlots.length 0 s
  | _ => []

end Server

end Netudp
