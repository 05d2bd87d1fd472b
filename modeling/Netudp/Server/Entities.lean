/-
The entities of the server (`src/server.cpp`).

A fixed number of places for entities, of which the first free one is taken, and ids from
a 16-bit counter that leaves out 0.  An entity is found by its id, in the order of the
places.

A place that is not in use is `none`; `reset` leaves nothing there that is read before the
place is taken again.  An entity has its schema by value.
-/
import Netudp.Replication.Entity
import Netudp.Reliability.PacketTracker

namespace Netudp

open Lib

/-- `kMaxEntities`, which no proof should count out. -/
@[irreducible] def maxEntities : Nat := 16384

/-- The entities and the counter. -/
structure EntityTable where
  entities : Nat → Option Entity
  nextEntityId : Nat

namespace EntityTable

/-- The part of `netudp_server_start`. -/
def start : EntityTable := ⟨fun _ => none, 1⟩

/-- The place of an entity assigned. -/
def setEntity (t : EntityTable) (i : Nat) (e : Option Entity) : EntityTable :=
  { t with entities := Function.update t.entities i e }

/-- `find_entity`, the place. -/
def find (t : EntityTable) (eid : Nat) : Option Nat :=
  if eid = 0 then none
  else (List.range maxEntities).find? fun i => (t.entities i).any fun e => e.entityId == eid

/-- The first place that is not in use. -/
def firstFree (t : EntityTable) : Option Nat :=
  (List.range maxEntities).find? fun i => (t.entities i).isNone

/-- `next_entity_id++`, and 1 in place of 0. -/
def nextId (id : Nat) : Nat :=
  if (id + 1) % u16Size = 0 then 1 else (id + 1) % u16Size

/-- `netudp_entity_create`, with the schema the id stands for if there is one; 0 when it
fails. -/
def create (t : EntityTable) (schema : Option Schema) : Nat × EntityTable :=
  match schema with
  | none => (0, t)
  | some schema =>
    match t.firstFree with
    | none => (0, t)
    | some i =>
      (t.nextEntityId,
        { t.setEntity i (some { entityId := t.nextEntityId, schema := schema }) with
          nextEntityId := nextId t.nextEntityId })

/-- `netudp_entity_destroy`. -/
def destroy (t : EntityTable) (eid : Nat) : EntityTable :=
  match t.find eid with
  | none => t
  | some i => t.setEntity i none

/-- A function that changes the entity of an id. -/
def onEntity (t : EntityTable) (eid : Nat) (f : Entity → Entity) : EntityTable :=
  match t.find eid with
  | none => t
  | some i => t.setEntity i ((t.entities i).map f)

/-- `netudp_entity_set_group`. -/
def setGroup (t : EntityTable) (eid : Nat) (groupId : Option Nat) : EntityTable :=
  t.onEntity eid fun e => { e with groupId := groupId }

/-- `netudp_entity_set_owner`. -/
def setOwner (t : EntityTable) (eid : Nat) (client : Option Nat) : EntityTable :=
  t.onEntity eid fun e => { e with ownerClient := client }

/-- `netudp_entity_set_max_rate`. -/
def setMaxRate (t : EntityTable) (eid : Nat) (hz : ℚ) : EntityTable :=
  t.onEntity eid fun e => { e with maxRateHz := hz }

/-- `netudp_entity_set_u8` and the other setters. -/
def set (t : EntityTable) (eid : Nat) (call : SetCall) : EntityTable :=
  t.onEntity eid fun e => (e.set call).2

end EntityTable

end Netudp
