/-
Replicating an entity to a client.

The server sends a client what has changed since the last time and forgets that it has
changed.  If every update reached the client, one after the other, the client would have
every property that is not marked as changed: that is the invariant here, with the
updates still in the queue taken as applied.

Queueing an update keeps it as long as the update is appended.  A state update replaces
one of the same entity that is still pending, though, and an update is not the state of
an entity but the part of it that changed.  What only the replaced update carried, the
client never gets.  So the condition is that no update of the entity is pending when
another one is queued as a state.

Two more things are asked of the schema.  Its values fit the buffer of an entity; and it
has fewer than 64 properties, because with 64 the mask of an initial snapshot is empty.
-/
import Netudp.Proofs.Dispatch
import Netudp.Proofs.ReplicationCodec
import Netudp.Proofs.ReplicationSend

namespace Netudp

open Lib

variable {Key Ct : Type}

/-! ### Runs -/

/-- What stays the same over a run: the server's parameters, and the client. -/
structure ReplicationSetup (Key Ct : Type) where
  C : Primitives Key Ct
  Q : Quantizers
  cfg : ServerConfig
  maxGroups : Nat
  groups : Nat → Group
  client : Nat

/-- The server, an entity, and the client's copy of the entity's values. -/
structure ReplicationRun (Key : Type) where
  server : Server Key
  entity : Entity
  received : Bytes

/-- What happens. -/
inductive ReplicationEvent where
  /-- A setter is called. -/
  | set (call : SetCall)
  /-- The server's clock moves. -/
  | clock (time : Time)
  /-- `netudp_server_replicate`. -/
  | replicate
  /-- The oldest message is taken from the client's queue, delivered, and deserialized. -/
  | dequeue

section Run

variable (S : ReplicationSetup Key Ct)

/-- The channel the updates are queued on. -/
def ReplicationRun.channel (r : ReplicationRun Key) : Channel :=
  (r.server.connections S.client).ch 0

/-- The call of `netudp_server_replicate`. -/
def ReplicationRun.replicated (r : ReplicationRun Key) : Replicated Key :=
  r.server.replicateEntity S.C S.Q S.cfg S.maxGroups S.groups r.entity

/-- The client's values after a message. -/
def receiveUpdate (schema : Schema) (values message : Bytes) : Bytes :=
  (replicateDeserialize S.Q schema message values).values

def replicationStep (r : ReplicationRun Key) : ReplicationEvent → ReplicationRun Key
  | .set call => { r with entity := (r.entity.set call).2 }
  | .clock time => { r with server := { r.server with currentTime := time } }
  | .replicate => { r with server := (r.replicated S).server, entity := (r.replicated S).entity }
  | .dequeue =>
    match (r.channel S).dequeueSend with
    | (none, _) => r
    | (some msg, q) =>
      { r with
        server := r.server.setConnection S.client
          ((r.server.connections S.client).setCh 0 q)
        received := receiveUpdate S r.entity.schema r.received msg.data }

/-- Every send of the step is accepted. -/
def SendsAccepted (r : ReplicationRun Key) : ReplicationEvent → Prop
  | .replicate => ∀ result ∈ (r.replicated S).results, result = .ok
  | _ => True

/-- When an update is queued as a state, none of the entity is pending. -/
def NonePending (r : ReplicationRun Key) : ReplicationEvent → Prop
  | .replicate =>
    (r.entity.due S.maxGroups r.server.currentTime).isSome = true →
      r.entity.anyReliable = false →
      Channel.findState (r.channel S).sendQueue r.entity.entityId (r.channel S).sendQueue.size
        = none
  | _ => True

instance (r : ReplicationRun Key) (ev) : Decidable (SendsAccepted S r ev) := by
  cases ev <;> dsimp only [SendsAccepted] <;> infer_instance

instance (r : ReplicationRun Key) (ev) : Decidable (NonePending S r ev) := by
  cases ev <;> dsimp only [NonePending] <;> infer_instance

/-- The entity is replicated to the client alone, and a property that asks for a reliable
channel finds none. -/
structure OneMember (r : ReplicationRun Key) : Prop where
  group : ∀ g, r.entity.groupId = some g →
    (S.groups g).active = true ∧ (S.groups g).members = [S.client]
  unreliable : ∀ p ∈ r.entity.schema.props, p.has repReliable = true →
    ∀ i < (r.server.connections S.client).numChannels,
      ((r.server.connections S.client).ch i).config.type.isReliable = false

end Run

/-! ### Sends -/

/-- The message is appended to the client's queue, and nothing else about its channels
that matters changes. -/
structure Appends (S : ReplicationSetup Key Ct) (s s' : Server Key) (data : Bytes) : Prop where
  queue : ((s'.connections S.client).ch 0).queue.map QueuedMessage.data
    = ((s.connections S.client).ch 0).queue.map QueuedMessage.data ++ [data]
  config : ∀ i, ((s'.connections S.client).ch i).config = ((s.connections S.client).ch i).config
  numChannels : (s'.connections S.client).numChannels = (s.connections S.client).numChannels

section Step

variable {S : ReplicationSetup Key Ct}

theorem appends_withQueue {s : Server Key} {e : Entity} {q : Channel} {key : Option Nat}
    {data : Bytes} (htook : ((s.connections S.client).ch 0).Took q key data)
    (hnew : ∀ k ∈ ((s.connections S.client).ch 0).pendingStates, key ≠ some k) :
    Appends S s (s.withQueue ⟨e, 0, S.client⟩ q) data := by
  have hsteady : s.Steady (s.withQueue ⟨e, 0, S.client⟩ q) := steady_withQueue htook.config
  refine ⟨?_, hsteady.config S.client, hsteady.numChannels S.client⟩
  rw [ch_withQueue, if_pos ⟨rfl, rfl⟩, Channel.queue_startNagle]
  exact htook.appended hnew

/-! ### A call of `netudp_server_replicate` -/

theorem anyReliable_true {e : Entity} (h : e.anyReliable = true) :
    ∃ p ∈ e.schema.props, p.has repReliable = true := by
  obtain ⟨i, -, hi⟩ := List.any_eq_true.mp h
  have hany := (Bool.and_eq_true_iff.mp hi).2
  cases hp : e.schema.props[i]? with
  | none =>
    rw [hp] at hany
    cases hany
  | some p =>
    rw [hp] at hany
    exact ⟨p, List.mem_of_getElem? hp, hany⟩

theorem reliableChannel_of_none {c : Connection Key}
    (h : ∀ i < c.numChannels, (c.ch i).config.type.isReliable = false) :
    c.reliableChannel = 0 := by
  unfold Connection.reliableChannel
  rw [List.find?_eq_none.mpr]
  · rfl
  · intro i hi
    rw [h i (List.mem_range.mp hi)]
    exact Bool.false_ne_true

theorem replicateTo_cases {s : Server Key} {e : Entity}
    (hok : ∀ result ∈ (s.replicateTo S.C S.Q S.cfg e 0 S.client).2, result = .ok)
    (hnone : e.anyReliable = false →
      Channel.findState ((s.connections S.client).ch 0).sendQueue e.entityId
        ((s.connections S.client).ch 0).sendQueue.size = none) :
    let wire := replicateSerialize S.Q e (entityMaxValueSize + 32) S.client e.needsInitial
    (wire = none ∨ wire = some []) ∧ (s.replicateTo S.C S.Q S.cfg e 0 S.client).1 = s ∨
      ∃ b rest, wire = some (b :: rest) ∧
        Appends S s (s.replicateTo S.C S.Q S.cfg e 0 S.client).1 (b :: rest) := by
  intro wire
  let t : Turn := ⟨e, 0, S.client⟩
  have hget : t.wire S.Q = wire.getD [] := rfl
  by_cases hnil : t.wire S.Q = []
  · refine Or.inl ⟨?_, congrArg Prod.fst (replicateTo_nothing (t := t) hnil)⟩
    cases hwire : wire with
    | none => exact Or.inl rfl
    | some bytes =>
      rw [hget, hwire, Option.getD_some] at hnil
      exact Or.inr (congrArg some hnil)
  · obtain ⟨b, rest, hcons⟩ := List.exists_cons_of_ne_nil hnil
    refine Or.inr ⟨b, rest, ?_, ?_⟩
    · cases hwire : wire with
      | none =>
        rw [hget, hwire] at hnil
        exact absurd rfl hnil
      | some bytes =>
        rw [hget, hwire, Option.getD_some] at hcons
        rw [hcons]
    · rw [← hcons]
      by_cases htakes : s.Takes S.Q S.cfg t
      · obtain ⟨q, htook, heq⟩ := replicateTo_taken (C := S.C) htakes
        rw [show s.replicateTo S.C S.Q S.cfg e 0 S.client = _ from heq]
        refine appends_withQueue htook fun k hk hkey => ?_
        -- The key of a pending update is that of a state.
        simp only [Turn.key, sendKey] at hkey
        split at hkey
        · cases hkey
        · rename_i hplain
          split at hkey
          · cases hkey
          · rename_i hid
            obtain rfl := Option.some.inj hkey
            exact (Channel.findState_eq_none_iff hid).mp
              (hnone (Bool.eq_false_iff.mpr hplain)) hk
      · obtain ⟨result, hne, heq⟩ := replicateTo_refused (C := S.C) hnil htakes
        rw [show s.replicateTo S.C S.Q S.cfg e 0 S.client = _ from heq] at hok
        exact absurd (hok result List.mem_cons_self) hne

/-- The entity after an update of it has been sent. -/
def Entity.sentAt (e : Entity) (now : Time) : Entity :=
  { e with dirtyMask := 0, needsInitial := false, lastReplicateTime := now }

/-- What the call has done: nothing, or it has cleared the mask, with the update in the
queue if there was one to send. -/
theorem replicated_cases {r : ReplicationRun Key} (hone : OneMember S r)
    (haccepted : SendsAccepted S r .replicate) (hpending : NonePending S r .replicate) :
    r.replicated S = ⟨r.server, r.entity, []⟩ ∨
    ∃ wire, replicateSerialize S.Q r.entity (entityMaxValueSize + 32) S.client
        r.entity.needsInitial = wire ∧
      (r.replicated S).entity = r.entity.sentAt r.server.currentTime ∧
      ((wire = none ∨ wire = some []) ∧ (r.replicated S).server = r.server ∨
        ∃ b rest, wire = some (b :: rest) ∧
          Appends S r.server (r.replicated S).server (b :: rest)) := by
  cases hdue : r.entity.due S.maxGroups r.server.currentTime with
  | none =>
    refine Or.inl ?_
    simp only [ReplicationRun.replicated, Server.replicateEntity, hdue]
  | some g =>
    refine Or.inr ⟨_, rfl, ?_⟩
    obtain ⟨hactive, hmembers⟩ := hone.group g (Entity.due_groupId hdue)
    have hchannel : (if r.entity.anyReliable then
        (r.server.connections S.client).reliableChannel else 0) = 0 := by
      split
      · rename_i hreliable
        obtain ⟨p, hp, hhas⟩ := anyReliable_true hreliable
        exact reliableChannel_of_none (hone.unreliable p hp hhas)
      · rfl
    have hcall : r.replicated S =
        ⟨(r.server.replicateTo S.C S.Q S.cfg r.entity 0 S.client).1,
          r.entity.sentAt r.server.currentTime,
          (r.server.replicateTo S.C S.Q S.cfg r.entity 0 S.client).2⟩ := by
      simp only [ReplicationRun.replicated, Server.replicateEntity, hdue, hactive, hmembers,
        hchannel, Server.replicateMembers, List.append_nil, Entity.sentAt]
    have hok : ∀ result ∈ (r.server.replicateTo S.C S.Q S.cfg r.entity 0 S.client).2,
        result = .ok := by
      intro result hresult
      refine haccepted result ?_
      rw [hcall]
      exact hresult
    rw [hcall]
    exact ⟨rfl, replicateTo_cases hok (hpending (by rw [hdue]; rfl))⟩

/-! ### The invariant -/

/-- The client's values once everything in its queue has arrived. -/
def ReplicationRun.drained (S : ReplicationSetup Key Ct) (r : ReplicationRun Key) : Bytes :=
  ((r.channel S).queue.map QueuedMessage.data).foldl (receiveUpdate S r.entity.schema) r.received

/-- The property is sent to the client whenever it changes. -/
def PropDesc.Replicated (p : PropDesc) (owner : Option Nat) (client : Nat) : Prop :=
  p.quantized = false ∧ p.excludes owner client false = false

/-- The values fit the buffer of an entity, and the mask has a bit to spare. -/
structure SchemaFits (schema : Schema) : Prop where
  built : schema.Built
  size : schema.valueBufferSize ≤ entityMaxValueSize
  count : schema.props.length < 64

/-- Every property that is not marked as changed is on its way or has arrived. -/
structure InSync (S : ReplicationSetup Key Ct) (schema : Schema) (owner : Option Nat)
    (r : ReplicationRun Key) : Prop where
  one : OneMember S r
  sameSchema : r.entity.schema = schema
  sameOwner : r.entity.ownerClient = owner
  values : r.entity.values.length = entityMaxValueSize
  received : r.received.length = entityMaxValueSize
  synced : ∀ (i : Nat) (p : PropDesc), schema.props[i]? = some p → p.Replicated owner S.client →
    r.entity.dirtyMask.getLsbD i = false →
    readAt (r.drained S) p.offset p.rawSize = readAt r.entity.values p.offset p.rawSize

variable {schema : Schema} {owner : Option Nat} {r : ReplicationRun Key}

theorem length_foldl_receive (hfits : SchemaFits schema) (messages : List Bytes) :
    ∀ values : Bytes, values.length = entityMaxValueSize →
      (messages.foldl (receiveUpdate S schema) values).length = entityMaxValueSize := by
  induction messages with
  | nil => exact fun values h => h
  | cons message rest ih =>
    intro values h
    refine ih _ ?_
    rw [receiveUpdate, replicateDeserialize_length hfits.built.typed.coded _ (by
      rw [h]
      exact hfits.size), h]

/-- A property sent on every change is among those of an update, if it has changed or the
update is the initial one. -/
theorem sentMask_replicated {e : Entity} (hcount : e.schema.props.length < 64) {i client : Nat}
    {p : PropDesc} (hp : e.schema.props[i]? = some p)
    (hrep : p.Replicated e.ownerClient client) (initial : Bool) :
    (sentMask e client initial).getLsbD i = (initial || e.dirtyMask.getLsbD i) := by
  have hexcl : p.excludes e.ownerClient client initial = false := by
    have hupdate := hrep.2
    unfold PropDesc.excludes at hupdate ⊢
    cases initial with
    | false => exact hupdate
    | true =>
      simp only [Bool.or_eq_false_iff] at hupdate
      simp [hupdate.1.2, hupdate.2]
  obtain ⟨hlt, -⟩ := List.getElem?_eq_some_iff.mp hp
  rw [sentMask, getLsbD_filterMask _ _ _ _ _ _ _ (by omega), Nat.sub_zero, hp, Option.any_some,
    hexcl]
  cases initial with
  | false => simp
  | true => simp [getLsbD_initialMask hcount, hlt]

theorem length_drained (hfits : SchemaFits schema) (h : InSync S schema owner r) :
    (r.drained S).length = entityMaxValueSize := by
  obtain rfl := h.sameSchema
  exact length_foldl_receive hfits _ _ h.received

theorem InSync.set (hfits : SchemaFits schema) (h : InSync S schema owner r) (call : SetCall) :
    InSync S schema owner { r with entity := (r.entity.set call).2 } := by
  obtain rfl := h.sameSchema
  rcases set_cases r.entity call with hsame | ⟨idx, p, val, hp, hsized, hstore⟩
  · rw [hsame]
    exact h
  · rw [hstore]
    have hlen := hsized (hfits.built.typed p (List.mem_of_getElem? hp))
    have hrange := (laidOut_range r.entity.schema.laidOut).2 idx p hp
    have hsize := hfits.size
    have hbuf := h.values
    refine ⟨⟨h.one.group, h.one.unreliable⟩, rfl, h.sameOwner, ?_, h.received, ?_⟩
    · exact (length_writeAt (by omega)).trans hbuf
    · intro i q hq hrep hclean
      have hbits : (r.entity.dirtyMask ||| BitVec.twoPow 64 idx).getLsbD i = false := hclean
      rw [BitVec.getLsbD_or, Bool.or_eq_false_iff] at hbits
      have hne : i ≠ idx := by
        rintro rfl
        obtain ⟨hlt, -⟩ := List.getElem?_eq_some_iff.mp hq
        have hcount := hfits.count
        have hset : (BitVec.twoPow 64 i).getLsbD i = true := by
          rw [BitVec.getLsbD_twoPow]
          simp
          omega
        rw [hset] at hbits
        cases hbits.2
      refine (h.synced i q hq hrep hbits.1).trans ?_
      -- The value of another property lies before or behind the one written.
      show _ = readAt (writeAt r.entity.values p.offset val) q.offset q.rawSize
      rcases Nat.lt_or_gt_of_ne hne with hbefore | hafter
      · have hapart := laidOut_apart r.entity.schema.laidOut hq hp hbefore
        exact (readAt_writeAt_before hapart (by omega)).symm
      · have hapart := laidOut_apart r.entity.schema.laidOut hp hq hafter
        exact (readAt_writeAt_after (by omega) (by omega)).symm

/-- Nothing was to be sent: nothing the client gets had changed. -/
theorem InSync.unsent (hfits : SchemaFits schema) (h : InSync S schema owner r)
    (hmask : sentMask r.entity S.client r.entity.needsInitial = 0) (now : Time) :
    InSync S schema owner { r with entity := r.entity.sentAt now } := by
  obtain rfl := h.sameSchema
  obtain rfl := h.sameOwner
  refine ⟨⟨h.one.group, h.one.unreliable⟩, rfl, rfl, h.values, h.received, ?_⟩
  intro i p hp hrep _
  have hbit := sentMask_replicated hfits.count hp hrep r.entity.needsInitial
  rw [hmask] at hbit
  have hclean := Bool.or_eq_false_iff.mp (hbit.symm.trans BitVec.getLsbD_zero)
  exact h.synced i p hp hrep hclean.2

/-- An update was appended: what is not in it had not changed. -/
theorem InSync.sent (hfits : SchemaFits schema) (h : InSync S schema owner r) {wire : Bytes}
    (hwire : replicateSerialize S.Q r.entity (entityMaxValueSize + 32) S.client
      r.entity.needsInitial = some wire) (hsome : wire ≠ []) {s' : Server Key}
    (happends : Appends S r.server s' wire) (now : Time) :
    InSync S schema owner { r with server := s', entity := r.entity.sentAt now } := by
  have hlen := length_drained hfits h
  obtain rfl := h.sameSchema
  obtain rfl := h.sameOwner
  have hsize := hfits.size
  have hcarried := (replicateDeserialize_serialize (hfits.built.typed.coded.confined _)
    (by rw [h.values]; exact hsize) hwire hsome (by rw [hlen]; exact hsize)).2
  have hdrained : ReplicationRun.drained S ⟨s', r.entity.sentAt now, r.received⟩
      = receiveUpdate S r.entity.schema (r.drained S) wire := by
    simp only [ReplicationRun.drained, ReplicationRun.channel]
    rw [happends.queue, List.foldl_append]
    rfl
  refine ⟨⟨h.one.group, ?_⟩, rfl, rfl, h.values, h.received, ?_⟩
  · intro p hp hhas i hi
    rw [happends.numChannels] at hi
    rw [happends.config i]
    exact h.one.unreliable p hp hhas i hi
  · intro i p hp hrep _
    have hmask := sentMask_replicated hfits.count hp hrep r.entity.needsInitial
    show readAt (ReplicationRun.drained S ⟨s', r.entity.sentAt now, r.received⟩) _ _ = _
    rw [hdrained]
    cases hbit : (sentMask r.entity S.client r.entity.needsInitial).getLsbD i with
    | true => exact hcarried.sent i p hp hbit hrep.1
    | false =>
      have hclean := Bool.or_eq_false_iff.mp (hmask.symm.trans hbit)
      refine (hcarried.kept_property hp hbit).trans ?_
      exact h.synced i p hp hrep hclean.2

theorem InSync.replicate (hfits : SchemaFits schema) (h : InSync S schema owner r)
    (haccepted : SendsAccepted S r .replicate) (hpending : NonePending S r .replicate) :
    InSync S schema owner (replicationStep S r .replicate) := by
  rcases replicated_cases h.one haccepted hpending with
    hsame | ⟨wire, hwire, hentity, ⟨hempty, hserver⟩ | ⟨b, rest, rfl, happends⟩⟩
  · simp only [replicationStep, hsame]
    exact h
  · simp only [replicationStep, hentity, hserver]
    refine h.unsent hfits ?_ _
    have hschema := h.sameSchema
    have hsize := hfits.size
    have hroom : (r.entity.schema.props.map PropDesc.valueSize).sum + 12
        ≤ entityMaxValueSize + 32 := by
      rw [hschema, hfits.built.typed.coded.sum_valueSize]
      omega
    obtain ⟨bytes, hbytes⟩ := replicateSerialize_some (Q := S.Q) hroom S.client
      r.entity.needsInitial
    rcases hempty with hnone | hnil
    · rw [hbytes, hnone] at hwire
      cases hwire
    · exact replicateSerialize_nil (hwire.trans hnil)
  · simp only [replicationStep, hentity]
    exact h.sent hfits hwire (List.cons_ne_nil b rest) happends _

theorem InSync.dequeue (hfits : SchemaFits schema) (h : InSync S schema owner r) :
    InSync S schema owner (replicationStep S r .dequeue) := by
  simp only [replicationStep]
  cases hdeq : (r.channel S).dequeueSend with
  | mk res q =>
    cases res with
    | none => exact h
    | some msg =>
      obtain ⟨rest, buf, hqueue, hbuf, rfl⟩ := Channel.dequeueSend_some hdeq
      have hlen : (receiveUpdate S r.entity.schema r.received msg.data).length
          = entityMaxValueSize := by
        rw [h.sameSchema]
        exact length_foldl_receive (S := S) hfits [msg.data] r.received h.received
      simp only
      refine ⟨⟨h.one.group, ?_⟩, h.sameSchema, h.sameOwner, h.values, hlen, ?_⟩
      · intro p hp hhas i hi
        rw [Server.setConnection_self] at hi ⊢
        rw [Connection.ch_setCh]
        split
        · rename_i hmod
          have hconfig := h.one.unreliable p hp hhas i hi
          rw [Connection.ch_congr _ hmod] at hconfig
          exact hconfig
        · exact h.one.unreliable p hp hhas i hi
      · intro i p hp hrep hclean
        rw [← h.synced i p hp hrep hclean]
        -- The oldest message moves from the queue to the client.
        congr 1
        simp only [ReplicationRun.drained, ReplicationRun.channel]
        rw [Server.setConnection_self, Connection.ch_setCh_self]
        have hold : ((r.server.connections S.client).ch 0).queue = msg :: rest := hqueue
        rw [hold, List.map_cons, List.foldl_cons]
        have hnew : ({ r.channel S with
            sendQueue := buf, nagleReady := false, nagleAccumulateTime := 0 } : Channel).queue =
            rest := hbuf
        exact congrArg (fun queue => List.foldl (receiveUpdate S r.entity.schema)
          (receiveUpdate S r.entity.schema r.received msg.data)
          (queue.map QueuedMessage.data)) hnew

theorem inSync_step (hfits : SchemaFits schema) (h : InSync S schema owner r)
    (ev : ReplicationEvent) (haccepted : SendsAccepted S r ev) (hpending : NonePending S r ev) :
    InSync S schema owner (replicationStep S r ev) := by
  cases ev with
  | set call => exact h.set hfits call
  | clock time =>
    exact ⟨⟨h.one.group, h.one.unreliable⟩, h.sameSchema, h.sameOwner, h.values, h.received,
      h.synced⟩
  | replicate => exact h.replicate hfits haccepted hpending
  | dequeue => exact h.dequeue hfits

end Step

/-! ### Whole runs -/

/-- A new entity, whose client has an empty queue and no values yet. -/
structure Begins (S : ReplicationSetup Key Ct) (r : ReplicationRun Key) : Prop where
  one : OneMember S r
  values : r.entity.values = List.replicate entityMaxValueSize 0
  received : r.received = List.replicate entityMaxValueSize 0
  queue : (r.channel S).queue = []

/-- **Replication loses no update**: once the queue is empty and nothing is marked as
changed, the client has the entity's value of every property that is sent to it whole, in
a run in which all sends are accepted and no update is queued as a state while one of the
entity is pending. -/
theorem replication_loses_nothing (S : ReplicationSetup Key Ct) (r : ReplicationRun Key)
    (hfits : SchemaFits r.entity.schema) (hbegins : Begins S r) (es : List ReplicationEvent)
    (haccepted : Along (replicationStep S) (SendsAccepted S) r es)
    (hpending : Along (replicationStep S) (NonePending S) r es) :
    let r' := run (replicationStep S) r es
    (r'.channel S).queue = [] → r'.entity.dirtyMask = 0 →
      ∀ (i : Nat) (p : PropDesc), r.entity.schema.props[i]? = some p → p.quantized = false →
        p.excludes r.entity.ownerClient S.client false = false →
        readAt r'.received p.offset p.rawSize = readAt r'.entity.values p.offset p.rawSize := by
  intro r' hqueue hclean i p hp hwhole hsent
  have hstart : InSync S r.entity.schema r.entity.ownerClient r := by
    refine ⟨hbegins.one, rfl, rfl, ?_, ?_, ?_⟩
    · rw [hbegins.values, List.length_replicate]
    · rw [hbegins.received, List.length_replicate]
    · intro j q _ _ _
      rw [ReplicationRun.drained, hbegins.queue, List.map_nil, List.foldl_nil, hbegins.received,
        hbegins.values]
  have hend : InSync S r.entity.schema r.entity.ownerClient r' := by
    refine run_invariant (InSync S r.entity.schema r.entity.ownerClient) ?_ hstart
      (along_and.mpr ⟨haccepted, hpending⟩)
    intro s ev hs hev
    exact inSync_step hfits hs ev hev.1 hev.2
  have hsynced := hend.synced i p hp ⟨hwhole, hsent⟩ (by rw [hclean]; exact BitVec.getLsbD_zero)
  rwa [ReplicationRun.drained, hqueue, List.map_nil, List.foldl_nil] at hsynced

/-! ### Two properties -/

/-- Two bytes. -/
def toySchema : Schema :=
  ((Schema.empty.addU8 0).bind (·.addU8 0)).getD .empty

/-- One group, with the client of slot 0. -/
def toyReplication : ReplicationSetup Nat (Sealed Nat) where
  C := toyCipher
  Q := ⟨fun _ => 0, fun _ => Vector.replicate 12 0, fun _ => 0, fun _ => Vector.replicate 16 0⟩
  cfg := toyServerConfig
  maxGroups := 1
  groups _ := ⟨true, [0]⟩
  client := 0

/-- The client is connected, and the entity is new. -/
def toyReplica : ReplicationRun Nat where
  server := Server.after toyCipher toyTokens toyServerConfig 0
    [.beginUpdate 1, .dispatch toyAddress (.request (toyRequest 0))]
  entity := { active := true, entityId := 1, schema := toySchema, groupId := some 0 }
  received := List.replicate entityMaxValueSize 0

/-- The initial snapshot arrives; then one property changes, and after it the other. -/
def twoUpdates (between : List ReplicationEvent) : List ReplicationEvent :=
  [.replicate, .dequeue, .clock 2, .set (.u8 0 7), .replicate] ++ between ++
    [.clock 3, .set (.u8 1 9), .replicate, .dequeue]

theorem toySchema_built : toySchema.Built := .u8 (.u8 .empty rfl) rfl

/-- With the first update taken from the queue in between, the client gets both. -/
theorem replication_loses_nothing_two_updates :
    let r := run (replicationStep toyReplication) toyReplica (twoUpdates [.dequeue])
    readAt r.received 0 1 = readAt r.entity.values 0 1 ∧ readAt r.entity.values 0 2 = [7, 9] :=
  ⟨replication_loses_nothing toyReplication toyReplica
      ⟨toySchema_built, by decide, by decide⟩
      ⟨⟨fun _ _ => ⟨rfl, rfl⟩, by decide +kernel⟩, rfl, rfl, by decide +kernel⟩
      (twoUpdates [.dequeue]) (by decide +kernel) (by decide +kernel) (by decide +kernel)
      (by decide +kernel) 0 ⟨.u8, 0, 1, 0, 0⟩ rfl rfl (by decide),
    by decide +kernel⟩

/-- With the first update still pending, the second replaces it: both sends are accepted,
the queue is empty and nothing is marked as changed, and the client has the old value of
the first property. -/
theorem pending_update_replaced :
    let r := run (replicationStep toyReplication) toyReplica (twoUpdates [])
    Along (replicationStep toyReplication) (SendsAccepted toyReplication) toyReplica
        (twoUpdates []) ∧
      (r.channel toyReplication).queue = [] ∧ r.entity.dirtyMask = 0 ∧
      readAt r.received 0 2 = [0, 9] ∧ readAt r.entity.values 0 2 = [7, 9] := by
  decide +kernel

end Netudp
