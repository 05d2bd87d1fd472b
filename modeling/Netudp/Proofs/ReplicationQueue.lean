/-
What a replication clears, it has queued.

`netudp_server_replicate` ignores the results of its sends and then clears the mask of the
entity.  A send goes wrong when the update does not fit the wire or the queue, when the
member's channel is not there or not of the right kind, or when the mask of a snapshot is
computed wrong.  Whether one does can be told from the state before the call: the members
have their turns in an order that the call does not change, and each turn takes places in
one queue only.  `Deliverable` says that none goes wrong, and it is exactly what has to be
the case for the call to queue what it clears; without it an update is lost for good, of
which a blob of 1300 bytes is an instance.
-/
import Netudp.Proofs.Entities
import Netudp.Proofs.ReplicationSend
import Netudp.Proofs.ReplicationWire

namespace Netudp

open Lib EntityTable

variable {Key Ct : Type}

/-! ### Turns, one after the other -/

/-- A property is selected for the member. -/
def Turn.Selected (t : Turn) : Prop :=
  ∃ k, Netudp.Selected t.entity t.client t.entity.needsInitial k

section Turns

variable (C : Primitives Key Ct) (Q : Quantizers) (cfg : ServerConfig)

/-- The update of the turn is accepted, and in the queue of the member's channel. -/
structure Server.Queues (s : Server Key) (t : Turn) : Prop where
  some : t.wire Q ≠ []
  accepted : (s.replicateTo C Q cfg t.entity t.channel t.client).2 = [.ok]
  queued : (((s.takeTurn C Q cfg t).connections t.client).ch t.channel).Queued (t.wire Q)

/-- What the updates for the channel of the client wait under. -/
def keysTo (turns : List Turn) (client channel : Nat) : List (Option Nat) :=
  (turns.filter fun t => t.client = client ∧ t.channel = channel ∧ t.wire Q ≠ []).map Turn.key

/-- Nothing is in the way of the updates: each that is to be sent suits its channel, and
every queue has places for all of them. -/
structure Deliverable (s : Server Key) (turns : List Turn) : Prop where
  suits : ∀ t ∈ turns, t.Selected → (s.connections t.client).Suits Q t
  room : ∀ client channel, channel < (s.connections client).numChannels →
    ((s.connections client).ch channel).placesWith (keysTo Q turns client channel) ≤ 256

variable {C Q cfg} {s s' : Server Key} {t : Turn} {q : Channel}

/-- **What is queued is what is taken.** -/
theorem queues_iff_takes : s.Queues C Q cfg t ↔ s.Takes Q cfg t := by
  constructor
  · rintro ⟨hsome, haccepted, -⟩
    by_contra hrefused
    obtain ⟨result, hne, heq⟩ := replicateTo_refused (C := C) hsome hrefused
    rw [heq] at haccepted
    exact hne (List.head_eq_of_cons_eq haccepted)
  · intro htakes
    obtain ⟨q, htook, heq⟩ := replicateTo_taken (C := C) htakes
    refine ⟨htakes.suits.some, by rw [heq], ?_⟩
    rw [Server.takeTurn, heq, ch_withQueue, if_pos ⟨rfl, rfl⟩]
    unfold Channel.Queued
    rw [Channel.queue_startNagle]
    exact htook.queued

theorem placesWith_startNagle (q : Channel) (now : Time) (keys : List (Option Nat)) :
    (q.startNagle now).placesWith keys = q.placesWith keys := by
  unfold Channel.startNagle
  split <;> rfl

theorem placesWith_head_le (q : Channel) (key : Option Nat) (keys : List (Option Nat)) :
    q.placesWith [key] ≤ q.placesWith (key :: keys) := by
  simp only [Channel.placesWith, newPlaces]
  split <;> omega

theorem keysTo_cons (turns : List Turn) (client channel : Nat) :
    keysTo Q (t :: turns) client channel =
      if t.client = client ∧ t.channel = channel ∧ t.wire Q ≠ [] then
        t.key :: keysTo Q turns client channel
      else keysTo Q turns client channel := by
  simp only [keysTo, List.filter_cons, decide_eq_true_iff]
  split <;> rfl

/-- What is deliverable after an update is taken was deliverable with it. -/
theorem deliverable_taken (htakes : s.Takes Q cfg t)
    (htook : ((s.connections t.client).ch t.channel).Took q t.key (t.wire Q)) {rest : List Turn} :
    Deliverable Q (s.withQueue t q) rest ↔ Deliverable Q s (t :: rest) := by
  have hsteady : s.Steady (s.withQueue t q) := steady_withQueue htook.config
  have hplaces : ∀ client channel, channel < (s.connections client).numChannels →
      (((s.withQueue t q).connections client).ch channel).placesWith (keysTo Q rest client channel) =
        ((s.connections client).ch channel).placesWith (keysTo Q (t :: rest) client channel) := by
    intro client channel hchannel
    rw [ch_withQueue, keysTo_cons]
    by_cases hsame : t.client = client ∧ t.channel = channel
    · obtain ⟨rfl, rfl⟩ := hsame
      rw [if_pos ⟨rfl, rfl⟩, if_pos ⟨rfl, rfl, htakes.suits.some⟩, placesWith_startNagle,
        htook.places]
    · -- There are four channels at most, so that another number is another channel.
      have hother : ¬ (client = t.client ∧ channel % 4 = t.channel % 4) := by
        rintro ⟨rfl, hmod⟩
        have hle := (s.connections t.client).numChannels_le
        have hpresent := htakes.suits.present
        exact hsame ⟨rfl, by omega⟩
      rw [if_neg hother, if_neg fun h => hsame ⟨h.1, h.2.1⟩]
  constructor
  · rintro ⟨hsuits, hroom⟩
    refine ⟨List.forall_mem_cons.mpr ⟨fun _ => htakes.suits, fun u hu hselected =>
      hsteady.suits.mp (hsuits u hu hselected)⟩, fun client channel hchannel => ?_⟩
    rw [← hplaces client channel hchannel]
    exact hroom client channel (by rwa [hsteady.numChannels])
  · rintro ⟨hsuits, hroom⟩
    refine ⟨fun u hu hselected => hsteady.suits.mpr
      (hsuits u (List.mem_cons_of_mem _ hu) hselected), fun client channel hchannel => ?_⟩
    rw [hsteady.numChannels] at hchannel
    rw [hplaces client channel hchannel]
    exact hroom client channel hchannel

/-- A turn with nothing to send is no obstacle, unless there should have been something. -/
theorem deliverable_nothing (hnil : t.wire Q = []) {rest : List Turn} :
    Deliverable Q s (t :: rest) ↔ ¬ t.Selected ∧ Deliverable Q s rest := by
  have hkeys : ∀ client channel,
      keysTo Q (t :: rest) client channel = keysTo Q rest client channel := fun client channel => by
    rw [keysTo_cons, if_neg fun h => h.2.2 hnil]
  constructor
  · rintro ⟨hsuits, hroom⟩
    obtain ⟨hfirst, hrest⟩ := List.forall_mem_cons.mp hsuits
    refine ⟨fun hselected => (hfirst hselected).some hnil, hrest, fun client channel => ?_⟩
    rw [← hkeys]
    exact hroom client channel
  · rintro ⟨hnone, hsuits, hroom⟩
    refine ⟨List.forall_mem_cons.mpr ⟨fun hselected => absurd hselected hnone, hsuits⟩,
      fun client channel => ?_⟩
    rw [hkeys]
    exact hroom client channel

/-- **Every turn queues what it should exactly if the updates are deliverable at the start.** -/
theorem along_queues_iff (turns : List Turn) :
    ∀ s : Server Key, (∀ t ∈ turns, t.client < cfg.maxClients ∧
        (s.connections t.client).active = true ∧ (t.wire Q ≠ [] → t.Selected)) →
      (Along (Server.takeTurn C Q cfg) (fun s t => t.Selected → s.Queues C Q cfg t) s turns ↔
        Deliverable Q s turns) := by
  induction turns with
  | nil =>
    intro s _
    refine iff_of_true trivial ⟨List.forall_mem_nil _, fun client channel _ => ?_⟩
    exact ((s.connections client).ch channel).sendQueue.size_le
  | cons t rest ih =>
    intro s hready
    obtain ⟨⟨hrange, hactive, hsent⟩, hrest⟩ := List.forall_mem_cons.mp hready
    have hsteady : s.Steady (s.takeTurn C Q cfg t) := steady_takeTurn s t
    have hlater := ih (s.takeTurn C Q cfg t) fun u hu => by
      rw [hsteady.active]
      exact hrest u hu
    rw [Along, hlater]
    by_cases hnil : t.wire Q = []
    · rw [Server.takeTurn, replicateTo_nothing hnil, deliverable_nothing hnil]
      refine and_congr_left fun _ => ⟨fun hqueues hselected => ?_, fun hnone => ?_⟩
      · exact (hqueues hselected).some hnil
      · exact fun hselected => absurd hselected hnone
    · by_cases htakes : s.Takes Q cfg t
      · obtain ⟨q, htook, heq⟩ := replicateTo_taken (C := C) htakes
        rw [Server.takeTurn, heq, deliverable_taken htakes htook]
        exact and_iff_right fun _ => queues_iff_takes.mpr htakes
      · refine iff_of_false (fun h => htakes (queues_iff_takes.mp (h.1 (hsent hnil)))) ?_
        rintro ⟨hsuits, hroom⟩
        have hfirst := hsuits t List.mem_cons_self (hsent hnil)
        have hplace := hroom t.client t.channel hfirst.present
        rw [keysTo_cons, if_pos ⟨rfl, rfl, hnil⟩] at hplace
        exact htakes ⟨hrange, hactive, hfirst, (placesWith_head_le _ _ _).trans hplace⟩

theorem replicateMembers_turns (C : Primitives Key Ct) (e : Entity) (channel : Nat)
    (clients : List Nat) :
    ∀ s : Server Key, (s.replicateMembers C Q cfg e channel clients).1 =
      run (Server.takeTurn C Q cfg) s (clients.map fun client => ⟨e, channel, client⟩) := by
  induction clients with
  | nil => exact fun _ => rfl
  | cons client rest ih => exact fun s => ih _

end Turns

/-! ### Entities -/

/-- The channel the updates of the entity go to: the first reliable one of the first
member, or 0. -/
def Server.replicateChannel (s : Server Key) (e : Entity) (members : List Nat) : Nat :=
  if e.anyReliable then (s.connections (members.headD 0)).reliableChannel else 0

theorem Server.Steady.replicateChannel {s s' : Server Key} (h : s.Steady s') (e : Entity)
    (members : List Nat) : s'.replicateChannel e members = s.replicateChannel e members := by
  unfold Server.replicateChannel Connection.reliableChannel
  rw [h.numChannels]
  simp only [h.config]

section Replicate

variable (C : Primitives Key Ct) (Q : Quantizers) (cfg : HostConfig)

/-- The turns of the members, when the call comes to the place. -/
def Host.turnsAt (h : Host Key) (i : Nat) : List Turn :=
  match h.entities.entities i with
  | none => []
  | some e =>
    match e.due cfg.maxGroups h.server.currentTime with
    | none => []
    | some g =>
      if (h.group g).active then
        (h.group g).members.map fun client =>
          ⟨e, h.server.replicateChannel e (h.group g).members, client⟩
      else []

/-- All turns of a call, in order. -/
def Host.turns (h : Host Key) : List Turn := (List.range maxEntities).flatMap (h.turnsAt cfg)

theorem mem_turnsAt {h : Host Key} {i : Nat} {t : Turn} (ht : t ∈ h.turnsAt cfg i) :
    h.entities.entities i = some t.entity ∧ ∃ g, t.client ∈ (h.group g).members := by
  unfold Host.turnsAt at ht
  split at ht
  · cases ht
  rename_i e he
  split at ht
  · cases ht
  rename_i g hdue
  split at ht
  · obtain ⟨client, hclient, rfl⟩ := List.mem_map.mp ht
    exact ⟨he, g, hclient⟩
  · cases ht

/-- **The body of the loop is the turns of the place.** -/
theorem replicateAt_turns (h : Host Key) (i : Nat) :
    (h.replicateAt C Q cfg i).server =
      run (Server.takeTurn C Q cfg.toServerConfig) h.server (h.turnsAt cfg i) := by
  simp only [Host.replicateAt, Host.turnsAt]
  cases h.entities.entities i with
  | none => rfl
  | some e =>
    cases hdue : e.due cfg.maxGroups h.server.currentTime with
    | none => simp only [Server.replicateEntity, hdue, run_nil]
    | some g =>
      cases hactive : (h.group g).active with
      | false => simp [Server.replicateEntity, hdue, hactive]
      | true =>
        cases hmembers : (h.group g).members with
        | nil => simp [Server.replicateEntity, hdue, hactive, hmembers]
        | cons first rest =>
          simp only [Server.replicateEntity, hdue, hactive, hmembers, if_true,
            Server.replicateChannel, List.headD_cons]
          exact replicateMembers_turns C e _ (first :: rest) h.server

/-! ### Masks -/

/-- Only properties that exist are marked as changed. -/
def Entity.DirtyInRange (e : Entity) : Prop :=
  ∀ k, e.dirtyMask.getLsbD k = true → k < e.schema.props.length

theorem Entity.dirtyInRange_of_clear {e : Entity} (h : e.dirtyMask = 0) : e.DirtyInRange := by
  intro k hk
  rw [h] at hk
  exact absurd (BitVec.getLsbD_zero.symm.trans hk) Bool.false_ne_true

theorem Entity.DirtyInRange.store {e : Entity} (h : e.DirtyInRange) {idx : Nat} {p : PropDesc}
    (hp : e.schema.props[idx]? = some p) (val : Bytes) : (e.store idx p val).DirtyInRange := by
  intro k hk
  have hbits : (e.dirtyMask ||| BitVec.twoPow 64 idx).getLsbD k = true := hk
  rw [BitVec.getLsbD_or, Bool.or_eq_true_iff, BitVec.getLsbD_twoPow, Bool.and_eq_true_iff] at hbits
  rcases hbits with hold | ⟨-, hnew⟩
  · exact h k hold
  · obtain rfl := decide_eq_true_iff.mp hnew
    exact (List.getElem?_eq_some_iff.mp hp).1

/-- No mask of the table marks a property that does not exist. -/
def EntityTable.DirtyInRange (t : EntityTable) : Prop :=
  ∀ i e, t.entities i = some e → e.DirtyInRange

namespace EntityTable

variable {t : EntityTable}

theorem DirtyInRange.setEntity (h : t.DirtyInRange) (i : Nat) {new : Option Entity}
    (hnew : ∀ e, new = some e → e.DirtyInRange) : (t.setEntity i new).DirtyInRange := by
  intro j e he
  rw [setEntity_entities] at he
  split at he
  · exact hnew e he
  · exact h j e he

theorem DirtyInRange.onEntity (h : t.DirtyInRange) (eid : Nat) {f : Entity → Entity}
    (hf : ∀ e : Entity, e.DirtyInRange → (f e).DirtyInRange) :
    (t.onEntity eid f).DirtyInRange := by
  unfold EntityTable.onEntity
  split
  · exact h
  · rename_i i _
    refine h.setEntity i fun e he => ?_
    obtain ⟨old, hold, rfl⟩ := Option.map_eq_some_iff.mp he
    exact hf old (h i old hold)

end EntityTable

theorem replicateEntity_dirtyInRange {e : Entity} (h : e.DirtyInRange) (s : Server Key)
    (groups : Nat → Group) :
    (s.replicateEntity C Q cfg.toServerConfig cfg.maxGroups groups e).entity.DirtyInRange := by
  simp only [Server.replicateEntity]
  split
  · exact h
  · split <;> exact Entity.dirtyInRange_of_clear rfl

/-- **In no reachable state is a property marked that does not exist.** -/
theorem dirtyInRange_after (T : TokenOps Key) (time : Time) (es : List (HostEvent Ct)) :
    (Host.after C T Q cfg time es).entities.DirtyInRange := by
  refine run_invariant' (fun h : Host Key => h.entities.DirtyInRange) ?_ es fun i e he => ?_
  · intro h ev hdirty
    cases ev with
    | entityCreate schema =>
      simp only [hostStep, EntityTable.create]
      split
      · exact hdirty
      split
      · exact hdirty
      · refine hdirty.setEntity _ ?_
        rintro e ⟨⟩
        exact Entity.dirtyInRange_of_clear rfl
    | entityDestroy eid =>
      simp only [hostStep, EntityTable.destroy]
      split
      · exact hdirty
      · exact hdirty.setEntity _ fun e he => by cases he
    | setGroup eid groupId => exact hdirty.onEntity eid fun e he => he
    | setOwner eid client => exact hdirty.onEntity eid fun e he => he
    | setMaxRate eid hz => exact hdirty.onEntity eid fun e he => he
    | set eid call =>
      refine hdirty.onEntity eid fun e he => ?_
      rcases set_cases e call with hsame | ⟨idx, p, val, hp, -, hstore⟩
      · rwa [hsame]
      · rw [hstore]
        exact he.store hp val
    | replicate =>
      refine run_invariant' (fun h : Host Key => h.entities.DirtyInRange) (fun h i hdirty => ?_) _
        hdirty
      simp only [Host.replicateAt]
      split
      · exact hdirty
      · rename_i e he
        refine hdirty.setEntity i ?_
        rintro _ ⟨⟩
        exact replicateEntity_dirtyInRange C Q cfg (hdirty i e he) _ _
    | _ => exact hdirty
  · cases he

/-! ### The whole call -/

theorem replicateAt_of_ne (h : Host Key) {i j : Nat} (hj : j ≠ i) :
    (h.replicateAt C Q cfg i).entities.entities j = h.entities.entities j := by
  simp only [Host.replicateAt]
  split
  · rfl
  · rw [setEntity_entities, if_neg hj]

theorem run_replicateAt_of_notMem {places : List Nat} {j : Nat} (hj : j ∉ places) (h : Host Key) :
    (run (Host.replicateAt C Q cfg) h places).entities.entities j = h.entities.entities j := by
  induction places generalizing h with
  | nil => rfl
  | cons i rest ih =>
    rw [List.mem_cons, not_or] at hj
    rw [run_cons, ih hj.2, replicateAt_of_ne C Q cfg h hj.1]

theorem run_replicateAt_whole {h : Host Key} (hw : HostWhole cfg h) (places : List Nat) :
    HostWhole cfg (run (Host.replicateAt C Q cfg) h places) ∧
      (run (Host.replicateAt C Q cfg) h places).groups = h.groups := by
  refine run_invariant' (fun h' : Host Key => HostWhole cfg h' ∧ h'.groups = h.groups) ?_ places
    ⟨hw, rfl⟩
  rintro h' i ⟨hw', hsame⟩
  obtain ⟨htouched, hgroups⟩ := replicateAt_touched C Q cfg h' i
  exact ⟨hw'.touched htouched hgroups, hgroups.trans hsame⟩

/-- The host when the call comes to the place. -/
def Host.reached (h : Host Key) (i : Nat) : Host Key :=
  run (Host.replicateAt C Q cfg) h (List.range i)

theorem reached_succ (h : Host Key) (i : Nat) :
    h.reached C Q cfg (i + 1) = (h.reached C Q cfg i).replicateAt C Q cfg i := by
  rw [Host.reached, List.range_succ, run_append, ← Host.reached, run_cons, run_nil]

theorem reached_entity (h : Host Key) {i j : Nat} (hij : i ≤ j) :
    (h.reached C Q cfg i).entities.entities j = h.entities.entities j :=
  run_replicateAt_of_notMem C Q cfg (by rw [List.mem_range]; omega) h

theorem reached_passed (h : Host Key) {i n : Nat} (hi : i < n) :
    (h.reached C Q cfg n).entities.entities i =
      (h.reached C Q cfg (i + 1)).entities.entities i := by
  induction n with
  | zero => omega
  | succ n ih =>
    rcases Nat.lt_succ_iff_lt_or_eq.mp hi with hlt | rfl
    · rw [reached_succ, replicateAt_of_ne C Q cfg _ (Nat.ne_of_lt hlt), ih hlt]
    · rfl

theorem reached_steady (h : Host Key) (i : Nat) : h.server.Steady (h.reached C Q cfg i).server := by
  refine run_invariant' (fun h' : Host Key => h.server.Steady h'.server) ?_ _ (.refl _)
  intro h' j hsteady
  rw [replicateAt_turns]
  exact hsteady.trans (run_invariant' (fun s => h'.server.Steady s)
    (fun s t hs => hs.trans (steady_takeTurn s t)) _ (.refl _))

/-- **The turns of a place are those it had at the start.** -/
theorem turnsAt_reached {h : Host Key} (hw : HostWhole cfg h) (i : Nat) :
    (h.reached C Q cfg i).turnsAt cfg i = h.turnsAt cfg i := by
  have hsteady := reached_steady C Q cfg h i
  have hgroup : (h.reached C Q cfg i).group = h.group := by
    funext g
    rw [Host.group, Host.reached, (run_replicateAt_whole C Q cfg hw (List.range i)).2, Host.group]
  simp only [Host.turnsAt, reached_entity C Q cfg h (Nat.le_refl i), hgroup, hsteady.time,
    hsteady.replicateChannel]

/-- The call is all turns, one after the other. -/
theorem reached_turns {h : Host Key} (hw : HostWhole cfg h) (P : Server Key → Turn → Prop)
    (n : Nat) :
    (h.reached C Q cfg n).server = run (Server.takeTurn C Q cfg.toServerConfig) h.server
        ((List.range n).flatMap (h.turnsAt cfg)) ∧
      (Along (Server.takeTurn C Q cfg.toServerConfig) P h.server
          ((List.range n).flatMap (h.turnsAt cfg)) ↔
        ∀ i < n, Along (Server.takeTurn C Q cfg.toServerConfig) P (h.reached C Q cfg i).server
          (h.turnsAt cfg i)) := by
  induction n with
  | zero => exact ⟨rfl, iff_of_true trivial fun i hi => absurd hi (Nat.not_lt_zero i)⟩
  | succ n ih =>
    obtain ⟨hserver, halong⟩ := ih
    rw [List.range_succ, List.flatMap_append, List.flatMap_singleton, run_append, along_append,
      ← hserver, halong, Nat.forall_lt_succ_right, reached_succ, replicateAt_turns,
      turnsAt_reached C Q cfg hw]
    exact ⟨rfl, Iff.rfl⟩

/-- If the call clears the mask or the `needs_initial` of an entity of an active group, it
accepts, in the turn of every member that a property is selected for, the member's
update. -/
def Host.QueuesWhatItClears (h : Host Key) : Prop :=
  ∀ i e e' g, h.entities.entities i = some e →
    (h.replicate C Q cfg).entities.entities i = some e' →
    e'.dirtyMask ≠ e.dirtyMask ∨ e'.needsInitial ≠ e.needsInitial →
    e.groupId = some g → (h.group g).active = true →
    ∀ before client after, (h.group g).members = before ++ client :: after →
      (∃ k, Selected e client e.needsInitial k) →
      let s := (h.reached C Q cfg i).server
      let channel := s.replicateChannel e (h.group g).members
      (s.replicateMembers C Q cfg.toServerConfig e channel before).1.Queues C Q
        cfg.toServerConfig ⟨e, channel, client⟩

theorem replicateEntity_cleared {s : Server Key} {groups : Nat → Group} {e : Entity} {g : Nat}
    (hdue : e.due cfg.maxGroups s.currentTime = some g) :
    let e' := (s.replicateEntity C Q cfg.toServerConfig cfg.maxGroups groups e).entity
    e'.dirtyMask = 0 ∧ e'.needsInitial = false := by
  simp only [Server.replicateEntity, hdue]
  split <;> exact ⟨rfl, rfl⟩

/-- What the call makes of an entity is what it makes of it when it comes to its place. -/
theorem replicate_entity {h : Host Key} {i : Nat} {e : Entity}
    (he : h.entities.entities i = some e) (hi : i < maxEntities) :
    let now := h.reached C Q cfg i
    (h.replicate C Q cfg).entities.entities i = some
      (now.server.replicateEntity C Q cfg.toServerConfig cfg.maxGroups now.group e).entity := by
  have hcall : h.replicate C Q cfg = h.reached C Q cfg maxEntities := rfl
  have hat := (reached_entity C Q cfg h (Nat.le_refl i)).trans he
  rw [hcall, reached_passed C Q cfg h hi, reached_succ]
  simp only [Host.replicateAt, hat, setEntity_entities, if_true]

/-- The call clears an entity exactly if it is due when the call comes to it. -/
theorem replicate_clears_iff {h : Host Key} {i : Nat} {e : Entity}
    (he : h.entities.entities i = some e) :
    (∃ e', (h.replicate C Q cfg).entities.entities i = some e' ∧
        (e'.dirtyMask ≠ e.dirtyMask ∨ e'.needsInitial ≠ e.needsInitial)) ↔
      i < maxEntities ∧ ∃ g, e.due cfg.maxGroups h.server.currentTime = some g := by
  by_cases hi : i < maxEntities
  · rw [replicate_entity C Q cfg he hi, ← (reached_steady C Q cfg h i).time]
    simp only [Option.some.injEq, exists_eq_left', hi, true_and]
    cases hdue : e.due cfg.maxGroups (h.reached C Q cfg i).server.currentTime with
    | none => simp [Server.replicateEntity, hdue]
    | some g =>
      obtain ⟨hmask, hinitial⟩ := replicateEntity_cleared C Q cfg hdue
      refine iff_of_true ?_ ⟨g, rfl⟩
      rw [hmask, hinitial]
      by_contra hnone
      rw [not_or, not_not, not_not] at hnone
      simp [Entity.due, ← hnone.1, ← hnone.2] at hdue
      split at hdue <;> cases hdue
  · have hcall : h.replicate C Q cfg = h.reached C Q cfg maxEntities := rfl
    rw [hcall, reached_entity C Q cfg h (Nat.le_of_not_lt hi), he]
    refine iff_of_false ?_ fun hlt => hi hlt.1
    rintro ⟨e', heq, hchanged⟩
    obtain rfl := Option.some.inj heq
    exact hchanged.elim (fun hne => hne rfl) (fun hne => hne rfl)

/-- The call queues what it clears if every turn queues what it should. -/
theorem queuesWhatItClears_iff {h : Host Key} :
    h.QueuesWhatItClears C Q cfg ↔ ∀ i < maxEntities,
      Along (Server.takeTurn C Q cfg.toServerConfig)
        (fun s t => t.Selected → s.Queues C Q cfg.toServerConfig t)
        (h.reached C Q cfg i).server (h.turnsAt cfg i) := by
  have hchannel : ∀ i e members, (h.reached C Q cfg i).server.replicateChannel e members =
      h.server.replicateChannel e members := fun i => (reached_steady C Q cfg h i).replicateChannel
  constructor
  · intro hqueues i hi
    unfold Host.turnsAt
    split
    · trivial
    rename_i e he
    split
    · trivial
    rename_i g hdue
    split
    · rename_i hactive
      obtain ⟨e', he', hcleared⟩ := (replicate_clears_iff C Q cfg he).mpr ⟨hi, g, hdue⟩
      refine along_of_split fun pre t post hsplit => ?_
      obtain ⟨before, later, hmembers, rfl, hlater⟩ := List.map_eq_append_iff.mp hsplit
      obtain ⟨client, after, rfl, rfl, -⟩ := List.map_eq_cons_iff.mp hlater
      intro hselected
      have hdone := hqueues i e e' g he he' hcleared (Entity.due_groupId hdue) hactive before client
        after hmembers hselected
      simp only [hchannel, replicateMembers_turns] at hdone
      exact hdone
    · trivial
  · intro halong i e e' g he he' hcleared hgroup hactive before client after hmembers hselected
    obtain ⟨hi, g', hdue⟩ := (replicate_clears_iff C Q cfg he).mp ⟨e', he', hcleared⟩
    obtain rfl := Option.some.inj ((Entity.due_groupId hdue).symm.trans hgroup)
    have hplace := halong i hi
    simp only [Host.turnsAt, he, hdue, hactive, if_true] at hplace
    rw [hmembers, List.map_append, along_append, List.map_cons] at hplace
    simp only [hchannel, replicateMembers_turns]
    rw [hmembers]
    exact hplace.2.1 hselected

theorem selected_of_wire {t : Turn} (hdirty : t.entity.DirtyInRange)
    (hsome : t.wire Q ≠ []) : t.Selected := by
  by_contra hnone
  have hzero := sentMask_of_empty hdirty fun k hk => hnone ⟨k, hk⟩
  refine hsome ?_
  unfold Turn.wire
  cases hwire : replicateSerialize Q t.entity (entityMaxValueSize + 32) t.client
      t.entity.needsInitial with
  | none => rfl
  | some wire =>
    rcases replicateSerialize_eq_some hwire with ⟨-, hnil⟩ | ⟨hne, -⟩
    · rw [hnil, Option.getD_some]
    · exact absurd hzero hne

/-- **What a replication clears, it has queued**, in a state whose tables are in order and
whose masks mark existing properties only, exactly if nothing in that state is in the way of
the updates. -/
theorem replicate_queues_what_it_clears {h : Host Key} (hw : HostWhole cfg h)
    (hdirty : h.entities.DirtyInRange) :
    h.QueuesWhatItClears C Q cfg ↔ Deliverable Q h.server (h.turns cfg) := by
  rw [queuesWhatItClears_iff, ← (reached_turns C Q cfg hw _ maxEntities).2]
  refine along_queues_iff (h.turns cfg) h.server fun t ht => ?_
  obtain ⟨i, -, hti⟩ := List.mem_flatMap.mp ht
  obtain ⟨hentity, g, hmember⟩ := mem_turnsAt cfg hti
  obtain ⟨hrange, hactive⟩ := hw.member hmember
  exact ⟨hrange, hactive, selected_of_wire Q (hdirty i t.entity hentity)⟩

/-! ### A single entity -/

/-- The update of the first entity for its only member is accepted. -/
theorem Host.QueuesWhatItClears.first {C : Primitives Key Ct} {Q : Quantizers} {cfg : HostConfig}
    {h : Host Key} (hqueues : h.QueuesWhatItClears C Q cfg) {e e' : Entity} {g client : Nat}
    (he : h.entities.entities 0 = some e)
    (he' : (h.replicate C Q cfg).entities.entities 0 = some e')
    (hcleared : e'.dirtyMask ≠ e.dirtyMask ∨ e'.needsInitial ≠ e.needsInitial)
    (hgroup : e.groupId = some g) (hactive : (h.group g).active = true)
    (hmembers : (h.group g).members = [client]) (hplain : e.anyReliable = false)
    (hselected : ∃ k, Selected e client e.needsInitial k) :
    h.server.Queues C Q cfg.toServerConfig ⟨e, 0, client⟩ := by
  have hfirst := hqueues 0 e e' g he he' hcleared hgroup hactive [] client [] hmembers hselected
  simp only [Server.replicateChannel, hplain] at hfirst
  exact hfirst

/-- With an entity at the first place only, the turns of a call are those of its members. -/
theorem turns_single {h : Host Key} (hidle : ∀ i, i ≠ 0 → h.entities.entities i = none) :
    h.turns cfg = h.turnsAt cfg 0 := by
  obtain ⟨n, hn⟩ : ∃ n, maxEntities = n + 1 := ⟨maxEntities - 1, by rw [maxEntities]⟩
  rw [Host.turns, hn, List.range_succ_eq_map, List.flatMap_cons, List.flatMap_eq_nil_iff.mpr,
    List.append_nil]
  intro i hi
  obtain ⟨j, -, rfl⟩ := List.mem_map.mp hi
  simp only [Host.turnsAt, hidle _ (Nat.succ_ne_zero j)]

end Replicate

/-- A client connects and is put into a group. -/
def joinGroup : List (HostEvent (Sealed Nat)) :=
  [.server (.beginUpdate 1), .server (.dispatch toyAddress (.request (toyRequest 0))),
    .groupCreate, .groupAdd 0 0]

/-- Then an entity is created for the group. -/
def groupEntity (schema : Schema) : Host Nat :=
  Host.after toyCipher toyTokens toyQuantizers toyHostConfig 0
    (joinGroup ++ [.entityCreate (some schema), .setGroup 1 (some 0)])

def joined : Host Nat := Host.after toyCipher toyTokens toyQuantizers toyHostConfig 0 joinGroup

theorem joined_group : (joined.group 0).active = true ∧ (joined.group 0).members = [0] := by
  decide +kernel

theorem joined_queues : ∀ i < 4, ((joined.server.connections 0).ch i).sendQueue.size = 0 := by
  decide +kernel

/-- The entity as it is then. -/
def grouped (schema : Schema) : Entity := { newEntity schema 1 with groupId := some 0 }

theorem groupEntity_eq (schema : Schema) :
    groupEntity schema = { joined with entities := oneEntity (grouped schema) 2 } := by
  have hjoined : run (hostStep toyCipher toyTokens toyQuantizers toyHostConfig)
      (.start toyCipher toyHostConfig 0) joinGroup = joined := rfl
  have hstart : joined.entities = EntityTable.start := rfl
  have hset : (oneEntity (newEntity schema 1) 2).setGroup 1 (some 0) =
      oneEntity (grouped schema) 2 := onEntity_first rfl 2 _
  rw [groupEntity, Host.after, run_append, hjoined, run_cons, run_cons, run_nil]
  simp only [hostStep, hstart, create_first, hset]

theorem grouped_due (schema : Schema) (now : Time) :
    (grouped schema).due toyHostConfig.maxGroups now = some 0 := rfl

/-- The entity and its group, and the one turn that a replication has. -/
structure Grouped (schema : Schema) (h before : Host Nat) : Prop where
  entity : before.entities.entities 0 = some (grouped schema)
  active : (before.group 0).active = true
  members : (before.group 0).members = [0]
  server : before.server = h.server
  turns : before.turns toyHostConfig = [⟨grouped schema, 0, 0⟩]

theorem grouped_of_eq {h before : Host Nat} {schema : Schema}
    (hactive : (h.group 0).active = true) (hmembers : (h.group 0).members = [0])
    (hbefore : before = { h with entities := oneEntity (grouped schema) 2 }) :
    Grouped schema h before := by
  have hplain : (grouped schema).anyReliable = false := by
    simp [Entity.anyReliable, grouped, newEntity]
  have hat : before.entities.entities 0 = some (grouped schema) := by
    rw [hbefore]
    rfl
  have hgroup : before.group = h.group := by
    rw [hbefore]
    rfl
  refine ⟨hat, by rw [hgroup, hactive], by rw [hgroup, hmembers], by rw [hbefore], ?_⟩
  rw [turns_single toyHostConfig fun i hi => by rw [hbefore]; exact oneEntity_of_ne _ 2 hi]
  simp only [Host.turnsAt, hat, grouped_due, hgroup, hactive, hmembers, if_true,
    Server.replicateChannel, hplain, Bool.false_eq_true, if_false, List.map_cons, List.map_nil]

theorem groupEntity_grouped (schema : Schema) : Grouped schema joined (groupEntity schema) :=
  grouped_of_eq joined_group.1 joined_group.2 (groupEntity_eq schema)

theorem groupEntity_whole (schema : Schema) : HostWhole toyHostConfig (groupEntity schema) :=
  hostWhole_after toyCipher toyTokens toyQuantizers toyHostConfig 0 _

theorem replicate_groupEntity {schema : Schema} {h : Host Nat}
    (hcall : h = (groupEntity schema).replicate toyCipher toyQuantizers toyHostConfig) :
    (h.entities.entities 0).map Entity.needsInitial = some false ∧ h.server =
      joined.server.takeTurn toyCipher toyQuantizers toyServerConfig ⟨grouped schema, 0, 0⟩ := by
  have hfacts := groupEntity_grouped schema
  rw [hcall]
  refine ⟨?_, ?_⟩
  · rw [replicate_entity toyCipher toyQuantizers toyHostConfig hfacts.entity
      (by rw [maxEntities]; decide), Option.map_some, (replicateEntity_cleared toyCipher
        toyQuantizers toyHostConfig (grouped_due schema _)).2]
  · have hserver := (reached_turns toyCipher toyQuantizers toyHostConfig
      (groupEntity_whole schema) (fun _ _ => True) maxEntities).1
    rw [← Host.turns, hfacts.turns, hfacts.server] at hserver
    exact hserver

/-- Two bytes. -/
def twoByteSchema : Schema := byteSchema 2 (by decide)

theorem twoByteSchema_wire :
    (Turn.wire toyQuantizers ⟨grouped twoByteSchema, 0, 0⟩).length = 5 := by
  decide +kernel

theorem joined_channel : 0 < (joined.server.connections 0).numChannels ∧
    ((joined.server.connections 0).ch 0).config.type.isReliable = false := by
  decide +kernel

theorem pair_deliverable {s : Server Nat} (hpresent : 0 < (s.connections 0).numChannels)
    (hkind : ((s.connections 0).ch 0).config.type.isReliable = false)
    (hempty : ((s.connections 0).ch 0).sendQueue.size = 0) :
    Deliverable toyQuantizers s [⟨grouped twoByteSchema, 0, 0⟩] := by
  have hlength := twoByteSchema_wire
  refine ⟨?_, fun client channel _ => ?_⟩
  · rintro t ht -
    obtain rfl := List.mem_singleton.mp ht
    refine ⟨List.ne_nil_of_length_pos (by omega), ?_, hpresent, fun _ => hkind⟩
    rw [hlength]
    decide
  · rw [keysTo_cons]
    split
    · rename_i hsame
      obtain ⟨rfl, rfl, -⟩ := hsame
      have hnew := newPlaces_le_length
        [Turn.key ⟨grouped twoByteSchema, 0, 0⟩] ((s.connections 0).ch 0).pendingStates
      rw [List.length_singleton] at hnew
      show ((s.connections 0).ch 0).sendQueue.size + _ ≤ 256
      rw [hempty]
      exact Nat.le_trans (Nat.add_le_add_left hnew 0) (by omega)
    · exact ((s.connections client).ch channel).sendQueue.size_le

/-- The snapshot of the two bytes is accepted into the member's queue. -/
theorem replicate_queues_what_it_clears_pair :
    (groupEntity twoByteSchema).server.Queues toyCipher toyQuantizers toyHostConfig.toServerConfig
      ⟨grouped twoByteSchema, 0, 0⟩ := by
  have hfacts := groupEntity_grouped twoByteSchema
  have hdirty : (groupEntity twoByteSchema).entities.DirtyInRange :=
    dirtyInRange_after toyCipher toyQuantizers toyHostConfig toyTokens 0 _
  have hdeliverable : Deliverable toyQuantizers (groupEntity twoByteSchema).server
      ((groupEntity twoByteSchema).turns toyHostConfig) := by
    rw [hfacts.turns, hfacts.server]
    exact pair_deliverable joined_channel.1 joined_channel.2 (joined_queues 0 (by decide))
  have hqueues := (replicate_queues_what_it_clears toyCipher toyQuantizers toyHostConfig
    (groupEntity_whole twoByteSchema) hdirty).mpr hdeliverable
  have hplain : (grouped twoByteSchema).anyReliable = false := by decide
  obtain ⟨e', he', hcleared⟩ := (replicate_clears_iff toyCipher toyQuantizers toyHostConfig
    hfacts.entity).mpr ⟨by rw [maxEntities]; decide, 0, grouped_due _ _⟩
  exact hqueues.first hfacts.entity he' hcleared rfl hfacts.active hfacts.members hplain
    ⟨0, _, rfl, Or.inl rfl, rfl⟩

/-- A blob of 1300 bytes, which is more than a message may have. -/
def largeSchema : Schema := (Schema.empty.addBlob 1300 0).getD .empty

theorem largeSchema_wire :
    (Turn.wire toyQuantizers ⟨grouped largeSchema, 0, 0⟩).length = 1303 := by
  decide +kernel

theorem joined_not_queued (channel : Nat) (data : Bytes) :
    ¬ ((joined.server.connections 0).ch channel).Queued data := by
  rintro ⟨msg, hmsg, -⟩
  have hempty := joined_queues (channel % 4) (Nat.mod_lt _ (by omega))
  rw [Connection.ch_congr _ (Nat.mod_mod channel 4), ← Channel.queue_eq_nil_iff] at hempty
  rw [hempty] at hmsg
  exact absurd hmsg List.not_mem_nil

/-- **The snapshot of the blob is dropped and forgotten**: the property is selected for
the member, `needs_initial` is cleared, and nothing is in any queue of the member. -/
theorem replicate_forgets_large_update :
    let h := groupEntity largeSchema
    let h' := h.replicate toyCipher toyQuantizers toyHostConfig
    h.entities.entities 0 = some (grouped largeSchema) ∧
      (grouped largeSchema).needsInitial = true ∧
      ((h.group 0).active = true ∧ (h.group 0).members = [0]) ∧
      Selected (grouped largeSchema) 0 true 0 ∧
      (h'.entities.entities 0).map Entity.needsInitial = some false ∧
      ∀ channel wire, ¬ ((h'.server.connections 0).ch channel).Queued wire := by
  intro h h'
  have hfacts : Grouped largeSchema joined h := groupEntity_grouped largeSchema
  obtain ⟨hcleared, hserver⟩ := replicate_groupEntity (rfl : h' = _)
  have hselected : Selected (grouped largeSchema) 0 true 0 := ⟨_, rfl, Or.inl rfl, rfl⟩
  have hlong : mtu < (Turn.wire toyQuantizers ⟨grouped largeSchema, 0, 0⟩).length := by
    rw [largeSchema_wire]
    decide
  have hrefused : ∀ s : Server Nat, s.takeTurn toyCipher toyQuantizers toyServerConfig
      ⟨grouped largeSchema, 0, 0⟩ = s := by
    intro s
    obtain ⟨result, -, heq⟩ := replicateTo_refused (C := toyCipher) (s := s)
      (List.ne_nil_of_length_pos (Nat.zero_lt_of_lt hlong))
      fun htakes : s.Takes toyQuantizers toyServerConfig _ => Nat.not_le.mpr hlong htakes.suits.size
    rw [Server.takeTurn, heq]
  refine ⟨hfacts.entity, rfl, ⟨hfacts.active, hfacts.members⟩, hselected, hcleared, ?_⟩
  intro channel data
  rw [hserver, hrefused]
  exact joined_not_queued channel data

end Netudp
