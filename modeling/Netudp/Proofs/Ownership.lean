/-
Whom an owner's data goes to.

The owner of an entity is a slot, and a slot outlives its clients: after the owner has
left, the slot is given to the next one who connects, and that one is sent what is for the
owner only.  So who is served is decided by the number of the slot, and it is the client
that was named for as long as nobody is admitted into a slot that an entity names.

`Owned` is the host with a record beside it: how often each slot has been given out, and
for every place who was in the slot when the owner of its entity was named.
-/
import Netudp.Proofs.ReplicationQueue

namespace Netudp

open Lib EntityTable

variable {Key Ct : Type}

/-! ### The record -/

/-- One stay of a client in a slot: the number of the admission into the slot, and the
client's id. -/
structure ClientSession where
  number : Nat
  clientId : Nat
deriving DecidableEq

/-- The host, the number of admissions into each slot, and for a place the session that was
named the owner of its entity. -/
structure Owned (Key : Type) where
  host : Host Key
  admissions : Nat → Nat
  named : Nat → Option ClientSession

/-- The session that is in the slot. -/
def Owned.occupant (o : Owned Key) (slot : Nat) : Option ClientSession :=
  if (o.host.server.connections slot).active then
    some ⟨o.admissions slot, (o.host.server.connections slot).clientId⟩
  else none

section Record

variable (C : Primitives Key Ct) (T : TokenOps Key) (Q : Quantizers) (cfg : HostConfig)

def Owned.start (time : Time) : Owned Key := ⟨.start C cfg time, fun _ => 0, fun _ => none⟩

/-- The slot that the event admits a client into. -/
def Host.admitted (h : Host Key) : HostEvent Ct → Option Nat
  | .server ev => h.server.admitted T cfg.toServerConfig ev
  | _ => none

/-- The sessions named, after the event. -/
def Owned.naming (o : Owned Key) : HostEvent Ct → Nat → Option ClientSession
  | .setOwner eid (some client) =>
    match o.host.entities.find eid with
    | none => o.named
    | some i => Function.update o.named i (o.occupant client)
  | _ => o.named

/-- A step of the host, recorded. -/
def ownedStep (o : Owned Key) (ev : HostEvent Ct) : Owned Key where
  host := hostStep C T Q cfg o.host ev
  admissions slot :=
    if o.host.admitted T cfg ev = some slot then o.admissions slot + 1 else o.admissions slot
  named := o.naming ev

/-- Nobody is admitted into a slot that an entity names as its owner. -/
def NotReused (o : Owned Key) (ev : HostEvent Ct) : Prop :=
  ∀ slot, o.host.admitted T cfg ev = some slot →
    ∀ i e, o.host.entities.entities i = some e → e.ownerClient ≠ some slot

/-- The step of a replication at the place has an update for the client that carries a
property for the owner only. -/
def Host.CarriesOwnerOnly (h : Host Key) (i client : Nat) : Prop :=
  ∃ e g k p, h.entities.entities i = some e ∧ e.due cfg.maxGroups h.server.currentTime = some g ∧
    (h.group g).active = true ∧ client ∈ (h.group g).members ∧
    e.schema.props[k]? = some p ∧ p.has repOwnerOnly = true ∧
    (sentMask e client e.needsInitial).getLsbD k = true

/-- What is for the owner only goes to the session that was named. -/
def ServesOwner (o : Owned Key) : HostEvent Ct → Prop
  | .replicate => ∀ i client,
      (run (Host.replicateAt C Q cfg) o.host (List.range i)).CarriesOwnerOnly cfg i client →
        o.occupant client ≠ none ∧ o.occupant client = o.named i
  | _ => True

/-! ### Steps -/

/-- In a slot nobody is admitted into, the client stays or leaves. -/
theorem hostStep_slot {h : Host Key} (hw : HostWhole cfg h) (ev : HostEvent Ct) {slot : Nat}
    (hother : h.admitted T cfg ev ≠ some slot) :
    SamePeer (h.server.connections slot)
        ((hostStep C T Q cfg h ev).server.connections slot) ∨
      ((hostStep C T Q cfg h ev).server.connections slot).active = false := by
  cases ev with
  | server ev =>
    rcases serverStep_cases (C := C) T hw.tables ev with
      ⟨from_, packet, admitted, rfl, -, -⟩ | hmoves
    · exact Or.inl (serverStep_samePeer hw.tables _ List.not_mem_nil hother)
    · -- A move leaves the slot with its client or releases it.
      refine hmoves.keeps (P := fun s => SamePeer (h.server.connections slot)
        (s.connections slot) ∨ (s.connections slot).active = false) ?_ (Or.inl (.refl _))
      intro s s' htables hmove hs
      cases hmove with
      | touch touched hpeer =>
        have hstep := (touched_setConnection cfg.toServerConfig s hpeer).peers slot
        rcases hs with hs | hs
        · exact Or.inl (hs.trans hstep)
        · exact Or.inr (by rw [hstep.active, hs])
      | @release released hactive =>
        rw [htables.table.release_connections C released]
        by_cases heq : slot = released
        · subst heq
          exact Or.inr (by rw [Function.update_self]; rfl)
        · rw [Function.update_of_ne heq]
          exact hs
      | elsewhere hconn _ _ _ _ =>
        rw [hconn]
        exact hs
  | groupSend id channel data flags =>
    exact Or.inl ((groupSend_touched C _ _ _ _ id channel data flags).peers slot)
  | replicate =>
    have hcall : hostStep C T Q cfg h (.replicate : HostEvent Ct) = h.replicate C Q cfg := rfl
    rw [hcall]
    exact Or.inl ((replicate_touched C Q cfg h).1.peers slot)
  | _ => exact Or.inl (.refl _)

variable {C T Q cfg}

/-- So does its session. -/
theorem occupant_step {o : Owned Key} (hw : HostWhole cfg o.host) (ev : HostEvent Ct) {slot : Nat}
    (hother : o.host.admitted T cfg ev ≠ some slot) :
    (ownedStep C T Q cfg o ev).occupant slot = o.occupant slot ∨
      (ownedStep C T Q cfg o ev).occupant slot = none := by
  have hcount : (ownedStep C T Q cfg o ev).admissions slot = o.admissions slot := if_neg hother
  rcases hostStep_slot C T Q cfg hw ev hother with hpeer | hgone
  · refine Or.inl ?_
    unfold Owned.occupant
    rw [hcount]
    show (if ((hostStep C T Q cfg o.host ev).server.connections slot).active = true then
      some (ClientSession.mk _ ((hostStep C T Q cfg o.host ev).server.connections slot).clientId)
      else none) = _
    rw [hpeer.active, hpeer.clientId]
  · refine Or.inr ?_
    exact if_neg (by rw [Bool.not_eq_true]; exact hgone)

/-- The owner of an entity is the session that was named, or the slot is empty. -/
structure OwnersNamed (cfg : HostConfig) (o : Owned Key) : Prop where
  whole : HostWhole cfg o.host
  owners : ∀ i e client, o.host.entities.entities i = some e → e.ownerClient = some client →
    o.occupant client = o.named i ∨ o.occupant client = none

theorem ownersNamed_start (C : Primitives Key Ct) (time : Time) :
    OwnersNamed cfg (Owned.start C cfg time) where
  whole := hostWhole_start C cfg time
  owners i e client he := by cases he

theorem ownersNamed_setOwner {o : Owned Key} (ho : OwnersNamed cfg o) (eid : Nat)
    (owner : Option Nat) :
    OwnersNamed cfg (ownedStep C T Q cfg o (.setOwner eid owner)) := by
  refine ⟨hostWhole_step C T Q cfg ho.whole (.setOwner eid owner), ?_⟩
  have hoccupant : (ownedStep C T Q cfg o (.setOwner eid owner)).occupant = o.occupant := rfl
  rw [hoccupant]
  intro i e' client he' hclient
  have hentities : (o.host.entities.setOwner eid owner).entities i = some e' := he'
  cases hfind : o.host.entities.find eid with
  | none =>
    have hnamed : o.naming (.setOwner eid owner : HostEvent Ct) = o.named := by
      cases owner with
      | none => rfl
      | some owner => simp only [Owned.naming, hfind]
    show o.occupant client = o.naming (.setOwner eid owner : HostEvent Ct) i ∨ _
    rw [EntityTable.setOwner, EntityTable.onEntity, hfind] at hentities
    rw [hnamed]
    exact ho.owners i e' client hentities hclient
  | some place =>
    rw [EntityTable.setOwner, EntityTable.onEntity, hfind] at hentities
    simp only [setEntity_entities] at hentities
    show o.occupant client = o.naming (.setOwner eid owner : HostEvent Ct) i ∨ _
    by_cases hi : i = place
    · rw [if_pos hi] at hentities
      obtain ⟨e, -, rfl⟩ := Option.map_eq_some_iff.mp hentities
      have howner : owner = some client := hclient
      have hnamed : o.naming (.setOwner eid (some client) : HostEvent Ct) place =
          o.occupant client := by
        simp only [Owned.naming, hfind, Function.update_self]
      rw [howner, hi, hnamed]
      exact Or.inl rfl
    · rw [if_neg hi] at hentities
      have hnamed : o.naming (.setOwner eid owner : HostEvent Ct) i = o.named i := by
        cases owner with
        | none => rfl
        | some owner => simp only [Owned.naming, hfind, Function.update_of_ne hi]
      rw [hnamed]
      exact ho.owners i e' client hentities hclient

/-- An entity with an owner after a step other than a naming had the owner before. -/
theorem hostStep_owner {h : Host Key} {ev : HostEvent Ct}
    (hnaming : ∀ eid owner, ev ≠ .setOwner eid owner) {i client : Nat} {e' : Entity}
    (he' : (hostStep C T Q cfg h ev).entities.entities i = some e')
    (hclient : e'.ownerClient = some client) :
    ∃ e, h.entities.entities i = some e ∧ e.ownerClient = some client := by
  rcases hostStep_entities C T Q cfg h ev with
    ⟨schema, rfl⟩ | ⟨eid, rfl⟩ | ⟨eid, owner, rfl⟩ | ⟨-, hkept⟩
  · have hcreated : (h.entities.create schema).2.entities i = some e' := he'
    cases hfree : h.entities.firstFree with
    | none =>
      rw [create_of_full hfree] at hcreated
      exact ⟨e', hcreated, hclient⟩
    | some place =>
      cases schema with
      | none => exact ⟨e', hcreated, hclient⟩
      | some schema =>
        rw [create_of_free hfree] at hcreated
        simp only [setEntity_entities] at hcreated
        split at hcreated
        · -- A new entity has no owner.
          obtain rfl := Option.some.inj hcreated
          cases hclient
        · exact ⟨e', hcreated, hclient⟩
  · have hleft : (h.entities.destroy eid).entities i = some e' := he'
    rw [EntityTable.destroy] at hleft
    split at hleft
    · exact ⟨e', hleft, hclient⟩
    · rw [setEntity_entities] at hleft
      split at hleft
      · cases hleft
      · exact ⟨e', hleft, hclient⟩
  · exact absurd rfl (hnaming eid owner)
  · obtain ⟨e, he, htag⟩ := hkept.back he'
    have howner : e'.ownerClient = e.ownerClient := (Prod.mk.inj htag).2
    exact ⟨e, he, by rw [← howner, hclient]⟩

/-- **A step keeps the owners**, if nobody is admitted into the slot of one. -/
theorem ownersNamed_step {o : Owned Key} (ho : OwnersNamed cfg o) (ev : HostEvent Ct)
    (hfree : NotReused T cfg o ev) : OwnersNamed cfg (ownedStep C T Q cfg o ev) := by
  by_cases hset : ∃ eid owner, ev = .setOwner eid owner
  · obtain ⟨eid, owner, rfl⟩ := hset
    exact ownersNamed_setOwner ho eid owner
  have hnaming : ∀ eid owner, ev ≠ .setOwner eid owner :=
    fun eid owner heq => hset ⟨eid, owner, heq⟩
  have hnamed : (ownedStep C T Q cfg o ev).named = o.named := by
    show o.naming ev = o.named
    cases ev with
    | setOwner eid owner => exact absurd rfl (hnaming eid owner)
    | _ => rfl
  refine ⟨hostWhole_step C T Q cfg ho.whole ev, ?_⟩
  intro i e' client he' hclient
  obtain ⟨e, he, howner⟩ := hostStep_owner hnaming he' hclient
  have hother : o.host.admitted T cfg ev ≠ some client :=
    fun hadmitted => hfree client hadmitted i e he howner
  rw [hnamed]
  rcases occupant_step ho.whole ev hother with hsame | hgone
  · rw [hsame]
    exact ho.owners i e client he howner
  · exact Or.inr hgone

/-! ### Replications -/

/-- A property for the owner only is in an update for the owner only. -/
theorem owner_of_sentMask {e : Entity} {client k : Nat} {p : PropDesc} {isInitial : Bool}
    (hp : e.schema.props[k]? = some p) (honly : p.has repOwnerOnly = true)
    (hsent : (sentMask e client isInitial).getLsbD k = true) : e.ownerClient = some client := by
  have hkept := not_excludes_of_sentMask hsent hp
  unfold PropDesc.excludes at hkept
  rw [honly] at hkept
  simp only [Bool.true_and, Bool.or_eq_false_iff, bne_eq_false_iff_eq] at hkept
  exact hkept.1.2

theorem servesOwner_of_named {o : Owned Key} (ho : OwnersNamed cfg o) (ev : HostEvent Ct) :
    ServesOwner C Q cfg o ev := by
  cases ev with
  | replicate =>
    rintro i client ⟨e, g, k, p, he, -, -, hclient, hp, honly, hsent⟩
    have hold := run_replicateAt_of_notMem C Q cfg (List.not_mem_range_self (n := i)) o.host
    obtain ⟨-, hgroups⟩ := run_replicateAt_whole C Q cfg ho.whole (List.range i)
    rw [hold] at he
    rw [Host.group, hgroups] at hclient
    have hactive := ho.whole.groups.members g client hclient
    have hsome : o.occupant client ≠ none := by
      unfold Owned.occupant
      rw [if_pos hactive]
      exact Option.some_ne_none _
    refine ⟨hsome, ?_⟩
    exact (ho.owners i e client he (owner_of_sentMask hp honly hsent)).resolve_right hsome
  | _ => exact trivial

variable (C T Q cfg)

/-- **Data for the owner only goes to the client that was named**, in every run in which
nobody is admitted into a slot that an entity names as its owner: whatever update of a
replication carries a property for the owner only, it is for a client that is in the slot
since before the owner was named. -/
theorem owner_only_goes_to_named (time : Time) (es : List (HostEvent Ct))
    (hfree : Along (ownedStep C T Q cfg) (NotReused T cfg) (.start C cfg time) es) :
    Along (ownedStep C T Q cfg) (ServesOwner C Q cfg) (.start C cfg time) es := by
  refine along_of_invariant (OwnersNamed cfg) ?_ (ownersNamed_start C time) hfree
  intro o ev ho hev
  exact ⟨servesOwner_of_named ho ev, ownersNamed_step ho ev hev⟩

end Record

/-! ### A slot that is given to another client -/

/-- An entity with a secret is created for the group, and the client is named its owner. -/
def nameOwner : List (HostEvent (Sealed Nat)) :=
  [.entityCreate (some secretSchema), .setGroup 1 (some 0), .setOwner 1 (some 0)]

/-- The client times out; another one gets the slot, and is put into the group. -/
def handover : List (HostEvent (Sealed Nat)) :=
  [.server (.beginUpdate 100), .server .finishUpdate,
    .server (.dispatch { toyAddress with port := 4001 } (.request (toyRequest 1))),
    .groupAdd 0 0]

/-- The record after the events, on the toy host. -/
def ownedRun (o : Owned Nat) (es : List (HostEvent (Sealed Nat))) : Owned Nat :=
  run (ownedStep toyCipher toyTokens toyQuantizers toyHostConfig) o es

/-- The client has connected. -/
def connected : Owned Nat := ownedRun (.start toyCipher toyHostConfig 0) joinGroup

/-- The record with other entities. -/
def Owned.withEntities (o : Owned Nat) (t : EntityTable) (named : Nat → Option ClientSession) :
    Owned Nat :=
  ⟨{ o.host with entities := t }, o.admissions, named⟩

theorem occupant_withEntities (o : Owned Nat) (t : EntityTable) (named : Nat → Option ClientSession)
    (slot : Nat) : (o.withEntities t named).occupant slot = o.occupant slot := rfl

theorem named_withEntities (o : Owned Nat) (t : EntityTable) (named : Nat → Option ClientSession) :
    (o.withEntities t named).named = named := rfl

theorem group_withEntities (o : Owned Nat) (t : EntityTable) (named : Nat → Option ClientSession) :
    (o.withEntities t named).host.group = o.host.group := rfl

def secretEntity : Entity := { grouped secretSchema with ownerClient := some 0 }

theorem run_nameOwner {o : Owned Nat} (hstart : o.host.entities = .start) :
    ownedRun o nameOwner = o.withEntities (oneEntity secretEntity 2)
      (Function.update o.named 0 (o.occupant 0)) := by
  have hcreate : ownedStep toyCipher toyTokens toyQuantizers toyHostConfig o
      (.entityCreate (some secretSchema)) =
        o.withEntities (oneEntity (newEntity secretSchema 1) 2) o.named := by
    rw [← create_first, ← hstart]
    rfl
  have hgroup : ownedStep toyCipher toyTokens toyQuantizers toyHostConfig
      (o.withEntities (oneEntity (newEntity secretSchema 1) 2) o.named) (.setGroup 1 (some 0)) =
        o.withEntities (oneEntity (grouped secretSchema) 2) o.named := by
    have hset : (oneEntity (newEntity secretSchema 1) 2).setGroup 1 (some 0) =
        oneEntity (grouped secretSchema) 2 := onEntity_first rfl 2 _
    rw [← hset]
    rfl
  have howner : ownedStep toyCipher toyTokens toyQuantizers toyHostConfig
      (o.withEntities (oneEntity (grouped secretSchema) 2) o.named) (.setOwner 1 (some 0)) =
        o.withEntities (oneEntity secretEntity 2) (Function.update o.named 0 (o.occupant 0)) := by
    have hset : (oneEntity (grouped secretSchema) 2).setOwner 1 (some 0) =
        oneEntity secretEntity 2 := onEntity_first rfl 2 _
    have hnaming : (o.withEntities (oneEntity (grouped secretSchema) 2) o.named).naming
        (.setOwner 1 (some 0) : HostEvent (Sealed Nat)) =
          Function.update o.named 0 (o.occupant 0) := by
      have hfind : (oneEntity (grouped secretSchema) 2).find 1 = some 0 :=
        find_first Nat.one_ne_zero 2
      simp only [Owned.naming, Owned.withEntities, hfind]
      rfl
    rw [← hset, ← hnaming]
    rfl
  rw [ownedRun, nameOwner, run_cons, run_cons, run_cons, run_nil, hcreate, hgroup, howner]

theorem run_handover (o : Owned Nat) (t : EntityTable) (named : Nat → Option ClientSession) :
    ownedRun (o.withEntities t named) handover = (ownedRun o handover).withEntities t named := by
  have hserver : ∀ (o : Owned Nat) ev,
      ownedStep toyCipher toyTokens toyQuantizers toyHostConfig (o.withEntities t named)
          (.server ev) =
        (ownedStep toyCipher toyTokens toyQuantizers toyHostConfig o (.server ev)).withEntities t
          named := fun _ _ => rfl
  have hadd : ∀ (o : Owned Nat) id client,
      ownedStep toyCipher toyTokens toyQuantizers toyHostConfig (o.withEntities t named)
          (.groupAdd id client) =
        (ownedStep toyCipher toyTokens toyQuantizers toyHostConfig o
          (.groupAdd id client)).withEntities t named := fun _ _ _ => rfl
  simp only [ownedRun, handover, run_cons, run_nil, hserver, hadd]

theorem connected_occupant : connected.occupant 0 = some ⟨1, 5⟩ := by
  decide +kernel

theorem handover_occupant : (ownedRun connected handover).occupant 0 = some ⟨2, 6⟩ := by
  decide +kernel

theorem handover_group : ((ownedRun connected handover).host.group 0).active = true ∧
    ((ownedRun connected handover).host.group 0).members = [0] := by
  decide +kernel

/-- The secret is in an update for a member in slot 0. -/
theorem carries_secret {o : Owned Nat} (hactive : (o.host.group 0).active = true)
    (hmembers : (o.host.group 0).members = [0]) (named : Nat → Option ClientSession) :
    (o.withEntities (oneEntity secretEntity 2) named).host.CarriesOwnerOnly toyHostConfig 0 0 := by
  refine ⟨secretEntity, 0, 0, ⟨.u8, repOwnerOnly, 1, 0, 0⟩, rfl, rfl, ?_, ?_, rfl, by decide,
    by decide⟩
  · rw [group_withEntities]
    exact hactive
  · rw [group_withEntities, hmembers]
    exact List.mem_singleton.mpr rfl

theorem connected_group : (connected.host.group 0).active = true ∧
    (connected.host.group 0).members = [0] := by
  decide +kernel

theorem run_named : ownedRun (.start toyCipher toyHostConfig 0) (joinGroup ++ nameOwner) =
    connected.withEntities (oneEntity secretEntity 2)
      (Function.update connected.named 0 (connected.occupant 0)) := by
  have hstart : connected.host.entities = .start := rfl
  have hsplit : ownedRun (.start toyCipher toyHostConfig 0) (joinGroup ++ nameOwner) =
      ownedRun connected nameOwner := run_append _ _ joinGroup nameOwner
  rw [hsplit, run_nameOwner hstart]

theorem notReused_of_none {T : TokenOps Key} {cfg : HostConfig} {o : Owned Key} {ev : HostEvent Ct}
    (hnone : o.host.admitted T cfg ev = none) : NotReused T cfg o ev := by
  intro slot hslot
  rw [hnone] at hslot
  cases hslot

/-- While the first client stays, it is the one that is sent the secret. -/
theorem owner_only_goes_to_named_first :
    let o := ownedRun (.start toyCipher toyHostConfig 0) (joinGroup ++ nameOwner)
    o.occupant 0 ≠ none ∧ o.occupant 0 = o.named 0 := by
  have hjoin : Along (ownedStep toyCipher toyTokens toyQuantizers toyHostConfig)
      (NotReused toyTokens toyHostConfig) (.start toyCipher toyHostConfig 0) joinGroup := by
    refine ⟨notReused_of_none rfl, ?_, notReused_of_none rfl, notReused_of_none rfl, trivial⟩
    intro slot _ i e he
    exact absurd he.symm (Option.some_ne_none e)
  have hname : ∀ o, Along (ownedStep toyCipher toyTokens toyQuantizers toyHostConfig)
      (NotReused toyTokens toyHostConfig) o (nameOwner ++ [.replicate]) := fun o =>
    ⟨notReused_of_none rfl, notReused_of_none rfl, notReused_of_none rfl, notReused_of_none rfl,
      trivial⟩
  have hserves := owner_only_goes_to_named toyCipher toyTokens toyQuantizers toyHostConfig 0
    (joinGroup ++ (nameOwner ++ [.replicate])) (along_append.mpr ⟨hjoin, hname _⟩)
  rw [← List.append_assoc, along_append] at hserves
  refine hserves.2.1 0 0 ?_
  have hrun := run_named
  rw [ownedRun] at hrun
  rw [List.range_zero, run_nil, hrun]
  exact carries_secret connected_group.1 connected_group.2 _

/-- **The next client in the slot is sent the owner's secret.** -/
theorem owner_slot_reused :
    let o := ownedRun (.start toyCipher toyHostConfig 0) (joinGroup ++ nameOwner ++ handover)
    o.named 0 = some ⟨1, 5⟩ ∧ o.occupant 0 = some ⟨2, 6⟩ ∧
      o.host.CarriesOwnerOnly toyHostConfig 0 0 := by
  intro o
  have ho : o = (ownedRun connected handover).withEntities (oneEntity secretEntity 2)
      (Function.update connected.named 0 (connected.occupant 0)) := by
    have hsplit : o = ownedRun (ownedRun (.start toyCipher toyHostConfig 0)
        (joinGroup ++ nameOwner)) handover := run_append _ _ (joinGroup ++ nameOwner) handover
    rw [hsplit, run_named, run_handover]
  have hcarries := carries_secret (o := ownedRun connected handover) handover_group.1
    handover_group.2 (Function.update connected.named 0 (connected.occupant 0))
  have hnamed : Function.update connected.named 0 (connected.occupant 0) 0 = some ⟨1, 5⟩ := by
    rw [Function.update_self, connected_occupant]
  rw [ho, occupant_withEntities, named_withEntities]
  exact ⟨hnamed, handover_occupant, hcarries⟩

end Netudp
