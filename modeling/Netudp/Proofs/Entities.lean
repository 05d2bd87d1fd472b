/-
The ids of entities.

Ids come from a 16-bit counter that leaves out 0, so the entities created as number `n`
and number `n + 65535` have the same id, and an id is unique for as long as no entity
outlives the creation of 65535 others.  `Census` is the host with a record beside it: the
ids that creations returned, in order, and for every place the number of the creation it
was last taken by.

A step of the host creates an entity, destroys one, names an owner, or leaves the ids and
the owners alone (`hostStep_entities`).
-/
import Netudp.Proofs.Groups
import Netudp.Proofs.NonceReuse
import Netudp.Proofs.ReplicationCodec

namespace Netudp

open Lib

variable {Key Ct : Type}

/-! ### The table -/

namespace EntityTable

variable {t t' : EntityTable}

theorem setEntity_entities (t : EntityTable) (i j : Nat) (e : Option Entity) :
    (t.setEntity i e).entities j = if j = i then e else t.entities j :=
  Function.update_apply t.entities i e j

theorem find_eq_some_iff {eid i : Nat} :
    t.find eid = some i ↔
      eid ≠ 0 ∧ i < maxEntities ∧ (∃ e, t.entities i = some e ∧ e.entityId = eid) ∧
        ∀ j < i, ∀ e, t.entities j = some e → e.entityId ≠ eid := by
  unfold find
  split
  · rename_i hzero
    simp [hzero]
  · rename_i hpos
    rw [List.find?_range_eq_some]
    simp only [Option.any_eq_true, beq_iff_eq, List.mem_range, Bool.not_eq_true']
    simp only [Option.any_eq_false, beq_eq_false_iff_ne]
    tauto

theorem firstFree_eq_some_iff {i : Nat} :
    t.firstFree = some i ↔
      i < maxEntities ∧ t.entities i = none ∧ ∀ j < i, t.entities j ≠ none := by
  unfold firstFree
  rw [List.find?_range_eq_some]
  simp only [Option.isNone_iff_eq_none, List.mem_range, Bool.not_eq_true', ne_eq]
  simp only [Option.isNone_eq_false_iff, Option.isSome_iff_ne_none, ne_eq]
  tauto

theorem create_of_free {i : Nat} (hfree : t.firstFree = some i) (schema : Schema) :
    t.create (some schema) = (t.nextEntityId,
      { t.setEntity i (some { entityId := t.nextEntityId, schema := schema }) with
        nextEntityId := nextId t.nextEntityId }) := by
  rw [create, hfree]

theorem create_of_full (hfull : t.firstFree = none) (schema : Option Schema) :
    t.create schema = (0, t) := by
  cases schema with
  | none => rfl
  | some schema => rw [create, hfull]

/-- What `f` reads of the entities is the same, and so is the counter. -/
structure SameBy {β : Type} (f : Entity → β) (t t' : EntityTable) : Prop where
  next : t'.nextEntityId = t.nextEntityId
  reads : ∀ i, (t'.entities i).map f = (t.entities i).map f

namespace SameBy

variable {β : Type} {f : Entity → β}

theorem refl (f : Entity → β) (t : EntityTable) : SameBy f t t := ⟨rfl, fun _ => rfl⟩

theorem trans {t'' : EntityTable} (h : SameBy f t t') (h' : SameBy f t' t'') : SameBy f t t'' :=
  ⟨h'.next.trans h.next, fun i => (h'.reads i).trans (h.reads i)⟩

theorem back (h : SameBy f t t') {i : Nat} {e' : Entity} (he' : t'.entities i = some e') :
    ∃ e, t.entities i = some e ∧ f e' = f e := by
  have hi := h.reads i
  rw [he', Option.map_some] at hi
  obtain ⟨e, he, heq⟩ := Option.map_eq_some_iff.mp hi.symm
  exact ⟨e, he, heq.symm⟩

theorem setEntity {i : Nat} {e e' : Entity} (he : t.entities i = some e) (heq : f e' = f e) :
    SameBy f t (t.setEntity i (some e')) := by
  refine ⟨rfl, ?_⟩
  intro j
  rw [setEntity_entities]
  split
  · rename_i hj
    rw [hj, he, Option.map_some, Option.map_some, heq]
  · rfl

theorem onEntity (eid : Nat) {g : Entity → Entity} (hg : ∀ e, f (g e) = f e) :
    SameBy f t (t.onEntity eid g) := by
  unfold EntityTable.onEntity
  split
  · exact .refl f t
  · rename_i i hfind
    obtain ⟨-, -, ⟨e, he, -⟩, -⟩ := find_eq_some_iff.mp hfind
    rw [he]
    exact setEntity he (hg e)

end SameBy

end EntityTable

open EntityTable

/-! ### Steps of the host -/

/-- The place and the id of the entity that the event creates. -/
def Host.creates (h : Host Key) : HostEvent Ct → Option (Nat × Nat)
  | .entityCreate (some schema) =>
    h.entities.firstFree.map fun i => (i, (h.entities.create (some schema)).1)
  | _ => none

/-- Who an entity is and whose. -/
def Entity.tag (e : Entity) : Nat × Option Nat := (e.entityId, e.ownerClient)

theorem set_tag (e : Entity) (call : SetCall) : (e.set call).2.tag = e.tag := by
  rcases set_cases e call with hsame | ⟨idx, p, val, -, -, hstore⟩
  · rw [hsame]
  · rw [hstore]
    rfl

section Steps

variable (C : Primitives Key Ct) (T : TokenOps Key) (Q : Quantizers) (cfg : HostConfig)

theorem replicateEntity_tag (maxGroups : Nat) (groups : Nat → Group) (s : Server Key)
    (e : Entity) :
    (s.replicateEntity C Q cfg.toServerConfig maxGroups groups e).entity.tag = e.tag := by
  simp only [Server.replicateEntity]
  split
  · rfl
  · split
    · rfl
    · rfl

theorem replicateAt_sameBy (h : Host Key) (i : Nat) :
    SameBy Entity.tag h.entities (h.replicateAt C Q cfg i).entities := by
  simp only [Host.replicateAt]
  split
  · exact .refl _ _
  · rename_i e he
    exact .setEntity he (replicateEntity_tag C Q cfg _ _ _ e)

theorem replicate_sameBy (h : Host Key) :
    SameBy Entity.tag h.entities (h.replicate C Q cfg).entities :=
  run_invariant' (fun h' : Host Key => SameBy Entity.tag h.entities h'.entities)
    (fun h' i hsame => hsame.trans (replicateAt_sameBy C Q cfg h' i)) _ (.refl _ _)

/-- **What a step does to the entities**: it creates one, destroys one, names an owner, or
leaves the ids and the owners alone. -/
theorem hostStep_entities (h : Host Key) (ev : HostEvent Ct) :
    (∃ schema, ev = .entityCreate schema) ∨ (∃ eid, ev = .entityDestroy eid) ∨
      (∃ eid client, ev = .setOwner eid client) ∨
      (h.creates ev = none ∧ SameBy Entity.tag h.entities (hostStep C T Q cfg h ev).entities) := by
  cases ev with
  | entityCreate schema => exact Or.inl ⟨schema, rfl⟩
  | entityDestroy eid => exact Or.inr (Or.inl ⟨eid, rfl⟩)
  | setOwner eid client => exact Or.inr (Or.inr (Or.inl ⟨eid, client, rfl⟩))
  | setGroup eid groupId => exact Or.inr (Or.inr (Or.inr ⟨rfl, .onEntity eid fun _ => rfl⟩))
  | setMaxRate eid hz => exact Or.inr (Or.inr (Or.inr ⟨rfl, .onEntity eid fun _ => rfl⟩))
  | set eid call => exact Or.inr (Or.inr (Or.inr ⟨rfl, .onEntity eid fun e => set_tag e call⟩))
  | replicate => exact Or.inr (Or.inr (Or.inr ⟨rfl, replicate_sameBy C Q cfg h⟩))
  | _ => exact Or.inr (Or.inr (Or.inr ⟨rfl, .refl _ _⟩))

end Steps

/-! ### The census -/

/-- The host and a record of its creations. -/
structure Census (Key : Type) where
  host : Host Key
  /-- What the creations returned that succeeded, oldest first. -/
  returned : List Nat
  /-- For a place, the number of the creation that took it last. -/
  born : Nat → Nat

section Census

variable (C : Primitives Key Ct) (T : TokenOps Key) (Q : Quantizers) (cfg : HostConfig)

def Census.start (time : Time) : Census Key := ⟨.start C cfg time, [], fun _ => 0⟩

/-- A step of the host, recorded. -/
def censusStep (c : Census Key) (ev : HostEvent Ct) : Census Key :=
  match c.host.creates ev with
  | none => { c with host := hostStep C T Q cfg c.host ev }
  | some (i, id) =>
    { host := hostStep C T Q cfg c.host ev
      returned := c.returned ++ [id]
      born := Function.update c.born i c.returned.length }

/-- Every entity is among the last 65535 created. -/
def Census.ShortLived (c : Census Key) : Prop :=
  ∀ i e, c.host.entities.entities i = some e → c.returned.length ≤ c.born i + 65535

/-- The id of an entity is the one its creation returned, and the ids go round. -/
structure Census.Whole (c : Census Key) : Prop where
  counter : c.host.entities.nextEntityId = c.returned.length % 65535 + 1
  rounds : ∀ n id, c.returned[n]? = some id → id = n % 65535 + 1
  place : ∀ i e, c.host.entities.entities i = some e → i < maxEntities
  own : ∀ i e, c.host.entities.entities i = some e → c.returned[c.born i]? = some e.entityId
  distinct : ∀ i j e e', c.host.entities.entities i = some e →
    c.host.entities.entities j = some e' → c.born i = c.born j → i = j

theorem census_start (time : Time) : (Census.start C cfg time).Whole where
  counter := rfl
  rounds n id hid := by simp [Census.start] at hid
  place i e he := by cases he
  own i e he := by cases he
  distinct i j e e' he := by cases he

theorem nextId_round (n : Nat) : nextId (n % 65535 + 1) = (n + 1) % 65535 + 1 := by
  have hsize : u16Size = 65536 := rfl
  unfold nextId
  rw [hsize]
  by_cases hwrap : (n % 65535 + 1 + 1) % 65536 = 0
  · rw [if_pos hwrap]
    omega
  · rw [if_neg hwrap]
    omega

variable {C T Q cfg} {c : Census Key}

theorem Census.Whole.keeps (hc : c.Whole) {h : Host Key}
    (hnext : h.entities.nextEntityId = c.host.entities.nextEntityId)
    (hback : ∀ i e', h.entities.entities i = some e' →
      ∃ e, c.host.entities.entities i = some e ∧ e'.entityId = e.entityId) :
    ({ c with host := h } : Census Key).Whole := by
  refine ⟨hnext.trans hc.counter, hc.rounds, ?_, ?_, ?_⟩
  · intro i e' he'
    obtain ⟨e, he, -⟩ := hback i e' he'
    exact hc.place i e he
  · intro i e' he'
    obtain ⟨e, he, hid⟩ := hback i e' he'
    rw [hid]
    exact hc.own i e he
  · intro i j e' f' he' hf' hborn
    obtain ⟨e, he, -⟩ := hback i e' he'
    obtain ⟨f, hf, -⟩ := hback j f' hf'
    exact hc.distinct i j e f he hf hborn

theorem Census.Whole.grows (hc : c.Whole) {c' : Census Key} {i : Nat} {new : Entity}
    (hrange : i < maxEntities) (hempty : c.host.entities.entities i = none)
    (hnew : new.entityId = c.host.entities.nextEntityId)
    (hat : ∀ j, c'.host.entities.entities j =
      if j = i then some new else c.host.entities.entities j)
    (hnext : c'.host.entities.nextEntityId = nextId c.host.entities.nextEntityId)
    (hreturned : c'.returned = c.returned ++ [c.host.entities.nextEntityId])
    (hborns : c'.born = Function.update c.born i c.returned.length) : c'.Whole := by
  have hself : c'.born i = c.returned.length := by
    rw [hborns, Function.update_self]
  have hborn : ∀ j e, c.host.entities.entities j = some e → c'.born j = c.born j := by
    intro j e he
    have hne : j ≠ i := by
      rintro rfl
      rw [hempty] at he
      cases he
    rw [hborns, Function.update_of_ne hne]
  have hlt : ∀ j e, c.host.entities.entities j = some e → c.born j < c.returned.length :=
    fun j e he => (List.getElem?_eq_some_iff.mp (hc.own j e he)).1
  -- An entity afterwards is the new one, or was there before at another place.
  have hcases : ∀ j e, c'.host.entities.entities j = some e →
      (j = i ∧ e = new) ∨ c.host.entities.entities j = some e := by
    intro j e he
    rw [hat] at he
    split at he
    · rename_i hj
      exact Or.inl ⟨hj, (Option.some.inj he).symm⟩
    · exact Or.inr he
  refine ⟨?_, ?_, ?_, ?_, ?_⟩
  · rw [hnext, hreturned, hc.counter, nextId_round, List.length_append, List.length_singleton]
  · intro n id hid
    rw [hreturned] at hid
    rcases Nat.lt_or_ge n c.returned.length with hn | hn
    · rw [List.getElem?_append_left hn] at hid
      exact hc.rounds n id hid
    · rw [List.getElem?_append_right hn, List.getElem?_singleton] at hid
      split at hid
      · rw [← Option.some.inj hid, hc.counter]
        congr 2
        omega
      · cases hid
  · intro j e he
    rcases hcases j e he with ⟨rfl, -⟩ | hold
    · exact hrange
    · exact hc.place j e hold
  · intro j e he
    rw [hreturned]
    rcases hcases j e he with ⟨rfl, rfl⟩ | hold
    · rw [hself, List.getElem?_concat_length, hnew]
    · rw [hborn j e hold, List.getElem?_append_left (hlt j e hold)]
      exact hc.own j e hold
  · intro j k e f he hf heq
    rcases hcases j e he with ⟨rfl, -⟩ | hold
    · rcases hcases k f hf with ⟨rfl, -⟩ | hold'
      · rfl
      · rw [hself, hborn k f hold'] at heq
        exact absurd heq.symm (Nat.ne_of_lt (hlt k f hold'))
    · rcases hcases k f hf with ⟨rfl, -⟩ | hold'
      · rw [hself, hborn j e hold] at heq
        exact absurd heq (Nat.ne_of_lt (hlt j e hold))
      · rw [hborn j e hold, hborn k f hold'] at heq
        exact hc.distinct j k e f hold hold' heq

theorem Census.Whole.create (hc : c.Whole) {i : Nat} (hfree : c.host.entities.firstFree = some i)
    (schema : Schema) :
    (censusStep C T Q cfg c (.entityCreate (some schema))).Whole := by
  obtain ⟨hrange, hempty, -⟩ := firstFree_eq_some_iff.mp hfree
  have hcreate := create_of_free hfree schema
  have hcreates : c.host.creates (.entityCreate (some schema) : HostEvent Ct) =
      some (i, c.host.entities.nextEntityId) := by
    rw [Host.creates, hfree, hcreate, Option.map_some]
  have hentities : (hostStep C T Q cfg c.host (.entityCreate (some schema))).entities =
      (c.host.entities.create (some schema)).2 := rfl
  unfold censusStep
  rw [hcreates]
  have hid : ({ entityId := c.host.entities.nextEntityId, schema := schema } : Entity).entityId =
      c.host.entities.nextEntityId := rfl
  refine hc.grows hrange hempty hid ?_ ?_ rfl rfl
  · intro j
    show (hostStep C T Q cfg c.host (.entityCreate (some schema))).entities.entities j = _
    rw [hentities, hcreate]
    exact setEntity_entities _ i j _
  · show (hostStep C T Q cfg c.host (.entityCreate (some schema))).entities.nextEntityId = _
    rw [hentities, hcreate]

/-- **A step keeps the record.** -/
theorem census_step (hc : c.Whole) (ev : HostEvent Ct) : (censusStep C T Q cfg c ev).Whole := by
  have hsame : ∀ {β : Type} {f : Entity → β} (g : β → Nat), (∀ e, g (f e) = e.entityId) →
      c.host.creates ev = none →
      SameBy f c.host.entities (hostStep C T Q cfg c.host ev).entities →
      (censusStep C T Q cfg c ev).Whole := by
    intro β f g hg hnone hsame
    simp only [censusStep, hnone]
    refine hc.keeps hsame.next ?_
    intro i e' he'
    obtain ⟨e, he, heq⟩ := hsame.back he'
    exact ⟨e, he, by rw [← hg e', heq, hg]⟩
  rcases hostStep_entities C T Q cfg c.host ev with
    ⟨schema, rfl⟩ | ⟨eid, rfl⟩ | ⟨eid, client, rfl⟩ | ⟨hnone, hkept⟩
  · cases hfree : c.host.entities.firstFree with
    | none =>
      have hstep := create_of_full hfree schema
      have hnone : c.host.creates (.entityCreate schema : HostEvent Ct) = none := by
        cases schema with
        | none => rfl
        | some schema => simp only [Host.creates, hfree, Option.map_none]
      refine hsame id (f := Entity.entityId) (fun _ => rfl) hnone ?_
      simp only [hostStep, hstep]
      exact .refl _ _
    | some i =>
      cases schema with
      | none => exact hsame id (f := Entity.entityId) (fun _ => rfl) rfl (.refl _ _)
      | some schema => exact hc.create hfree schema
  · simp only [censusStep, Host.creates, hostStep, EntityTable.destroy]
    split
    · exact hc
    · refine hc.keeps rfl ?_
      intro i e' he'
      rw [setEntity_entities] at he'
      split at he'
      · cases he'
      · exact ⟨e', he', rfl⟩
  · exact hsame id (f := Entity.entityId) (fun _ => rfl) rfl (.onEntity eid fun _ => rfl)
  · exact hsame Prod.fst (fun _ => rfl) hnone hkept

variable (C T Q cfg)

/-- The record after the events. -/
def Census.after (time : Time) (es : List (HostEvent Ct)) : Census Key :=
  run (censusStep C T Q cfg) (.start C cfg time) es

theorem censusStep_host (c : Census Key) (ev : HostEvent Ct) :
    (censusStep C T Q cfg c ev).host = hostStep C T Q cfg c.host ev := by
  unfold censusStep
  split
  · rfl
  · rfl

theorem censusAfter_host (time : Time) (es : List (HostEvent Ct)) :
    (Census.after C T Q cfg time es).host = Host.after C T Q cfg time es := by
  have hstart : (Census.start C cfg time).host = Host.start C cfg time := rfl
  refine run_simulates (fun c h => Census.host c = h) ?_ es hstart
  rintro c h ev rfl
  exact censusStep_host C T Q cfg c ev

theorem returned_step (c : Census Key) (ev : HostEvent Ct) :
    (censusStep C T Q cfg c ev).returned.length ≤ c.returned.length + 1 := by
  unfold censusStep
  split
  · exact Nat.le_succ _
  · rw [List.length_append, List.length_singleton]

theorem returned_run (es : List (HostEvent Ct)) :
    ∀ c : Census Key,
      (run (censusStep C T Q cfg) c es).returned.length ≤ c.returned.length + es.length := by
  induction es with
  | nil => exact fun c => Nat.le_refl _
  | cons ev es ih =>
    intro c
    have hone := returned_step C T Q cfg c ev
    have hrest := ih (censusStep C T Q cfg c ev)
    rw [run_cons, List.length_cons]
    omega

/-- No entity of a short run has outlived so many. -/
theorem shortLived_of_length (time : Time) {es : List (HostEvent Ct)} (hfew : es.length ≤ 65535) :
    (Census.after C T Q cfg time es).ShortLived := by
  intro i e _
  have hlen := returned_run C T Q cfg es (.start C cfg time)
  have hempty : (Census.start C cfg time).returned.length = 0 := rfl
  unfold Census.after
  omega

/-- **Ids are unique while no entity outlives the creation of 65535 others.**  In every
reachable state in which every entity is among the last 65535 created, the id of an entity
is not 0, is what its creation returned and leads to it, and no other entity has it. -/
theorem unique_entity_ids (time : Time) (es : List (HostEvent Ct))
    (hlife : (Census.after C T Q cfg time es).ShortLived) :
    let c := Census.after C T Q cfg time es
    let t := (Host.after C T Q cfg time es).entities
    (∀ i e, t.entities i = some e →
      e.entityId ≠ 0 ∧ c.returned[c.born i]? = some e.entityId ∧ t.find e.entityId = some i) ∧
    ∀ i j e e', t.entities i = some e → t.entities j = some e' → e.entityId = e'.entityId →
      i = j := by
  intro c t
  have hhost : t = c.host.entities :=
    congrArg Host.entities (censusAfter_host C T Q cfg time es).symm
  have hc : c.Whole :=
    run_invariant' Census.Whole (fun _ ev hc => census_step hc ev) es (census_start C cfg time)
  rw [hhost]
  have hnumber : ∀ i e, c.host.entities.entities i = some e →
      e.entityId = c.born i % 65535 + 1 ∧ c.born i < c.returned.length ∧
        c.returned.length ≤ c.born i + 65535 := by
    intro i e he
    have hown := hc.own i e he
    exact ⟨hc.rounds _ _ hown, (List.getElem?_eq_some_iff.mp hown).1, hlife i e he⟩
  have hunique : ∀ i j e e', c.host.entities.entities i = some e →
      c.host.entities.entities j = some e' → e.entityId = e'.entityId → i = j := by
    intro i j e e' he he' hid
    have hi := hnumber i e he
    have hj := hnumber j e' he'
    -- Both were created among the last 65535, and the numbers agree modulo 65535.
    exact hc.distinct i j e e' he he' (by omega)
  refine ⟨?_, hunique⟩
  intro i e he
  obtain ⟨hid, -, -⟩ := hnumber i e he
  refine ⟨by omega, hc.own i e he, ?_⟩
  refine find_eq_some_iff.mpr ⟨by omega, hc.place i e he, ⟨e, he, rfl⟩, ?_⟩
  intro j hj e' he' heq
  exact Nat.ne_of_lt hj (hunique j i e' e he' he heq)

end Census

/-! ### An entity that stays -/

/-- One group. -/
def toyHostConfig : HostConfig := { toyServerConfig with maxGroups := 1 }

def toyQuantizers : Quantizers :=
  ⟨fun _ => 0, fun _ => Vector.replicate 12 0, fun _ => 0, fun _ => Vector.replicate 16 0⟩

/-- An entity as created. -/
def newEntity (schema : Schema) (id : Nat) : Entity := { entityId := id, schema := schema }

/-- The entity at the first place is the only one. -/
def oneEntity (e : Entity) (next : Nat) : EntityTable :=
  ⟨Function.update (fun _ => none) 0 (some e), next⟩

theorem oneEntity_of_ne (e : Entity) (next : Nat) {i : Nat} (hi : i ≠ 0) :
    (oneEntity e next).entities i = none := by
  simp [oneEntity, hi]

theorem create_first (schema : Schema) :
    (EntityTable.start.create (some schema)).2 = oneEntity (newEntity schema 1) 2 := by
  have hfree : EntityTable.start.firstFree = some 0 :=
    firstFree_eq_some_iff.mpr ⟨by rw [maxEntities]; omega, rfl, fun j hj => absurd hj (by omega)⟩
  rw [create_of_free hfree]
  rfl

theorem find_first {e : Entity} (hid : e.entityId ≠ 0) (next : Nat) :
    (oneEntity e next).find e.entityId = some 0 :=
  find_eq_some_iff.mpr
    ⟨hid, by rw [maxEntities]; omega, ⟨e, rfl, rfl⟩, fun j hj => absurd hj (by omega)⟩

theorem onEntity_first {e : Entity} (hid : e.entityId = 1) (next : Nat) (f : Entity → Entity) :
    (oneEntity e next).onEntity 1 f = oneEntity (f e) next := by
  have hfind : (oneEntity e next).find 1 = some 0 := by
    rw [← hid]
    exact find_first (by omega) next
  rw [EntityTable.onEntity, hfind]
  simp only [EntityTable.setEntity, oneEntity, Function.update_self, Function.update_idem,
    Option.map_some]

/-- An entity that stays, and one created after it. -/
def twoEntities (id next : Nat) : EntityTable :=
  ⟨Function.update (oneEntity (newEntity .empty 1) next).entities 1 (some (newEntity .empty id)),
    next⟩

theorem create_second (n : Nat) :
    (oneEntity (newEntity .empty 1) n).create (some .empty) = (n, twoEntities n (nextId n)) := by
  have hfree : (oneEntity (newEntity .empty 1) n).firstFree = some 1 := by
    refine firstFree_eq_some_iff.mpr ⟨by rw [maxEntities]; omega, rfl, ?_⟩
    intro j hj
    obtain rfl : j = 0 := by omega
    exact Option.some_ne_none (newEntity .empty 1)
  rw [create_of_free hfree]
  rfl

theorem destroy_second {n : Nat} (hn : 1 < n) (next : Nat) :
    (twoEntities n next).destroy n = oneEntity (newEntity .empty 1) next := by
  have hfind : (twoEntities n next).find n = some 1 := by
    refine find_eq_some_iff.mpr
      ⟨by omega, by rw [maxEntities]; omega, ⟨newEntity .empty n, rfl, rfl⟩, ?_⟩
    intro j hj e he
    obtain rfl : j = 0 := by omega
    obtain rfl : newEntity .empty 1 = e := Option.some.inj he
    exact Nat.ne_of_lt hn
  rw [EntityTable.destroy, hfind]
  have hgone : Function.update (oneEntity (newEntity .empty 1) next).entities 1 none =
      (oneEntity (newEntity .empty 1) next).entities := Function.update_eq_self 1 _
  simp only [EntityTable.setEntity, twoEntities, Function.update_idem, hgone]
  rfl

/-- The first entity stays, and `n` others come and go. -/
def comeAndGo (n : Nat) : List (HostEvent (Sealed Nat)) :=
  .entityCreate (some .empty) ::
    (List.range n).flatMap fun k => [.entityCreate (some .empty), .entityDestroy (k + 2)]

theorem run_comeAndGo {n : Nat} (hn : n ≤ 65534) :
    (Host.after toyCipher toyTokens toyQuantizers toyHostConfig 0 (comeAndGo n)).entities =
      oneEntity (newEntity .empty 1) ((n + 1) % 65535 + 1) := by
  induction n with
  | zero => exact create_first .empty
  | succ n ih =>
    have hround : comeAndGo (n + 1) =
        comeAndGo n ++ [.entityCreate (some .empty), .entityDestroy (n + 2)] := by
      simp [comeAndGo, List.range_succ]
    have hid : (n + 1) % 65535 + 1 = n + 2 := by omega
    have hbefore := ih (by omega)
    unfold Host.after at hbefore ⊢
    rw [hround, run_append, run_cons, run_cons, run_nil]
    simp only [hostStep, hbefore]
    rw [create_second, nextId_round, hid]
    exact destroy_second (by omega) _

/-- With fewer than that, the first entity is still found. -/
theorem unique_entity_ids_hundred :
    let t := (Host.after toyCipher toyTokens toyQuantizers toyHostConfig 0 (comeAndGo 100)).entities
    t.find 1 = some 0 := by
  have hfew : (comeAndGo 100).length ≤ 65535 := by simp [comeAndGo]
  have hat : (Host.after toyCipher toyTokens toyQuantizers toyHostConfig 0
      (comeAndGo 100)).entities.entities 0 = some (newEntity .empty 1) := by
    rw [run_comeAndGo (by omega)]
    rfl
  exact ((unique_entity_ids toyCipher toyTokens toyQuantizers toyHostConfig 0 (comeAndGo 100)
    (shortLived_of_length _ _ _ _ 0 hfew)).1 0 (newEntity .empty 1) hat).2.2

theorem create_again {h : Host Nat} (hone : h.entities = oneEntity (newEntity .empty 1) 1) :
    let t := (hostStep toyCipher toyTokens toyQuantizers toyHostConfig h
      (.entityCreate (some .empty))).entities
    (h.entities.create (some .empty)).1 = 1 ∧ (t.entities 0).map Entity.entityId = some 1 ∧
      (t.entities 1).map Entity.entityId = some 1 ∧ t.find 1 = some 0 := by
  simp only [hostStep, hone, create_second]
  refine ⟨trivial, rfl, rfl, ?_⟩
  exact find_eq_some_iff.mpr ⟨by omega, by rw [maxEntities]; omega, ⟨newEntity .empty 1, rfl, rfl⟩,
    fun j hj => absurd hj (by omega)⟩

/-- **After 65534 others the first entity's id is given out again**, and leads to the
first entity. -/
theorem entity_id_given_twice :
    let h := Host.after toyCipher toyTokens toyQuantizers toyHostConfig 0 (comeAndGo 65534)
    let t := (hostStep toyCipher toyTokens toyQuantizers toyHostConfig h
      (.entityCreate (some .empty))).entities
    (h.entities.create (some .empty)).1 = 1 ∧ (t.entities 0).map Entity.entityId = some 1 ∧
      (t.entities 1).map Entity.entityId = some 1 ∧ t.find 1 = some 0 := by
  have hone := run_comeAndGo (Nat.le_refl 65534)
  exact create_again hone

end Netudp
