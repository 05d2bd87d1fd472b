/-
`netudp_server_replicate` (`src/server.cpp`).

For every entity that has changed and is due, the update is serialized for each member of
the entity's group and queued: as a state update, which replaces one that is pending, or
with a plain send if a property that has to arrive has changed.  The mask is cleared
whatever became of the sends.

One entity is modelled, the body of the loop.  Of a group, the members.
-/
import Netudp.Replication.Replicate
import Netudp.Server.Server

namespace Netudp

open Lib

variable {Key Ct : Type}

/-- `struct Group`. -/
structure Group where
  active : Bool
  members : List Nat

namespace Server

/-- `netudp_server_send`. -/
def send (C : Primitives Key Ct) (cfg : ServerConfig) (s : Server Key) (client channel : Nat)
    (data : Bytes) (flags : SendFlags) : SendResult × Server Key :=
  if cfg.maxClients ≤ client then (.invalidParam, s)
  else
    let (result, c, _) :=
      serverSend C cfg.protocolId s.currentTime (s.connections client) channel data flags
    (result, s.setConnection client c)

/-- `netudp_server_send_state`. -/
def sendState (cfg : ServerConfig) (s : Server Key) (client channel entityId : Nat)
    (data : Bytes) : SendResult × Server Key :=
  if cfg.maxClients ≤ client then (.invalidParam, s)
  else
    let (result, c) := serverSendState s.currentTime (s.connections client) channel entityId data
    (result, s.setConnection client c)

end Server

namespace Entity

/-- The update has to wait: neither the interval of the rate nor the one that prevents
starvation has passed. -/
def rateLimited (e : Entity) (now : Time) : Bool :=
  !e.needsInitial && 0 < e.maxRateHz && now - e.lastReplicateTime < 1 / e.maxRateHz &&
    now - e.lastReplicateTime < e.minUpdateInterval

/-- The checks at the head of the loop: the entity's group, if the entity is replicated
now. -/
def due (e : Entity) (maxGroups : Nat) (now : Time) : Option Nat :=
  match e.groupId with
  | none => none
  | some g =>
    if !e.active || (e.dirtyMask = 0 && !e.needsInitial) || maxGroups ≤ g || e.rateLimited now
    then none else some g

theorem due_groupId {e : Entity} {maxGroups g : Nat} {now : Time}
    (h : e.due maxGroups now = some g) : e.groupId = some g := by
  unfold due at h
  split at h
  · cases h
  · rename_i g' hg
    split at h
    · cases h
    · rw [hg]
      exact h

/-- `any_reliable`. -/
def anyReliable (e : Entity) : Bool :=
  (List.range e.schema.props.length).any fun i =>
    e.dirtyMask.getLsbD i && (e.schema.props[i]?.any (·.has repReliable))

end Entity

/-- The first reliable channel of the connection, and 0 if there is none. -/
def Connection.reliableChannel (c : Connection Key) : Nat :=
  ((List.range c.numChannels).find? fun i => (c.ch i).config.type.isReliable).getD 0

/-- What a call did with an entity: the results of its sends, one for each member that
had something sent. -/
structure Replicated (Key : Type) where
  server : Server Key
  entity : Entity
  results : List SendResult

namespace Server

variable (C : Primitives Key Ct) (Q : Quantizers) (cfg : ServerConfig)

/-- The update of the entity for one member, serialized and queued. -/
def replicateTo (e : Entity) (channel : Nat) (s : Server Key) (client : Nat) :
    Server Key × List SendResult :=
  match replicateSerialize Q e (entityMaxValueSize + 32) client e.needsInitial with
  | none => (s, [])
  | some [] => (s, [])
  | some (b :: wire) =>
    let (result, s) :=
      if e.anyReliable then s.send C cfg client channel (b :: wire) 0
      else s.sendState cfg client channel e.entityId (b :: wire)
    (s, [result])

/-- The update for one member after another. -/
def replicateMembers (e : Entity) (channel : Nat) :
    Server Key → List Nat → Server Key × List SendResult
  | s, [] => (s, [])
  | s, client :: rest =>
    let (s, sent) := s.replicateTo C Q cfg e channel client
    let (s, results) := replicateMembers e channel s rest
    (s, sent ++ results)

/-- The loop of `netudp_server_replicate` for the entity. -/
def replicateEntity (maxGroups : Nat) (groups : Nat → Group) (s : Server Key) (e : Entity) :
    Replicated Key :=
  match e.due maxGroups s.currentTime with
  | none => ⟨s, e, []⟩
  | some g =>
    match (groups g).active, (groups g).members with
    | true, first :: rest =>
      let channel := if e.anyReliable then (s.connections first).reliableChannel else 0
      let (s', results) := s.replicateMembers C Q cfg e channel (first :: rest)
      ⟨s', { e with
        dirtyMask := 0
        needsInitial := false
        lastReplicateTime := s.currentTime }, results⟩
    | _, _ => ⟨s, { e with dirtyMask := 0, needsInitial := false }, []⟩

end Server

end Netudp
