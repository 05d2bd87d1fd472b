/-
The server with its groups and entities (`src/server.cpp`).

The rest of `struct netudp_server`: an event of the server may release slots, which then
leave the groups; `netudp_server_replicate` goes through the entities and sends each that
is due to the members of its group.
-/
import Netudp.Lib.Run
import Netudp.Server.Entities
import Netudp.Server.Groups

namespace Netudp

open Lib

variable {Key Ct : Type}

/-- The configuration, with the number of groups the server was started with. -/
structure HostConfig extends ServerConfig where
  maxGroups : Nat

/-- `struct netudp_server` with the groups and the entities. -/
structure Host (Key : Type) where
  server : Server Key
  groups : GroupTable
  entities : EntityTable

/-- What happens to it. -/
inductive HostEvent (Ct : Type) where
  | server (ev : ServerEvent Ct)
  /-- `netudp_group_create`. -/
  | groupCreate
  /-- `netudp_group_destroy`. -/
  | groupDestroy (id : Nat)
  /-- `netudp_group_add`. -/
  | groupAdd (id client : Nat)
  /-- `netudp_group_remove`. -/
  | groupRemove (id client : Nat)
  /-- `netudp_group_send`. -/
  | groupSend (id channel : Nat) (data : Bytes) (flags : SendFlags)
  /-- `netudp_entity_create`. -/
  | entityCreate (schema : Option Schema)
  /-- `netudp_entity_destroy`. -/
  | entityDestroy (eid : Nat)
  /-- `netudp_entity_set_group`. -/
  | setGroup (eid : Nat) (groupId : Option Nat)
  /-- `netudp_entity_set_owner`. -/
  | setOwner (eid : Nat) (client : Option Nat)
  /-- `netudp_entity_set_max_rate`. -/
  | setMaxRate (eid : Nat) (hz : ℚ)
  /-- A setter of an entity. -/
  | set (eid : Nat) (call : SetCall)
  /-- `netudp_server_replicate`. -/
  | replicate

section Host

variable (C : Primitives Key Ct) (T : TokenOps Key) (Q : Quantizers) (cfg : HostConfig)

/-- `netudp_server_start`. -/
def Host.start (time : Time) : Host Key :=
  ⟨Server.start C cfg.toServerConfig time, .start cfg.maxGroups, .start⟩

/-- The members of the groups, as replication sees them. -/
def Host.group (h : Host Key) (id : Nat) : Group := (h.groups.groups id).toGroup

/-- The loop of `netudp_server_replicate` for a place. -/
def Host.replicateAt (h : Host Key) (i : Nat) : Host Key :=
  match h.entities.entities i with
  | none => h
  | some e =>
    let r := h.server.replicateEntity C Q cfg.toServerConfig cfg.maxGroups h.group e
    { h with server := r.server, entities := h.entities.setEntity i (some r.entity) }

/-- `netudp_server_replicate`. -/
def Host.replicate (h : Host Key) : Host Key :=
  run (Host.replicateAt C Q cfg) h (List.range maxEntities)

/-- The host after the event. -/
def hostStep (h : Host Key) : HostEvent Ct → Host Key
  | .server ev =>
    { h with
      server := (serverStep C T cfg.toServerConfig h.server ev).1
      groups := (h.server.releases C cfg.toServerConfig ev).foldl
        (GroupTable.forget cfg.maxGroups) h.groups }
  | .groupCreate => { h with groups := (h.groups.create cfg.toServerConfig).2 }
  | .groupDestroy id => { h with groups := h.groups.destroy cfg.maxGroups id }
  | .groupAdd id client =>
    { h with
      groups := (h.groups.add cfg.toServerConfig cfg.maxGroups h.server id client).2 }
  | .groupRemove id client => { h with groups := (h.groups.remove cfg.maxGroups id client).2 }
  | .groupSend id channel data flags =>
    { h with
      server := (h.server.groupSend C cfg.toServerConfig cfg.maxGroups h.groups id channel data
        flags).2 }
  | .entityCreate schema => { h with entities := (h.entities.create schema).2 }
  | .entityDestroy eid => { h with entities := h.entities.destroy eid }
  | .setGroup eid groupId => { h with entities := h.entities.setGroup eid groupId }
  | .setOwner eid client => { h with entities := h.entities.setOwner eid client }
  | .setMaxRate eid hz => { h with entities := h.entities.setMaxRate eid hz }
  | .set eid call => { h with entities := h.entities.set eid call }
  | .replicate => h.replicate C Q cfg

end Host

end Netudp
