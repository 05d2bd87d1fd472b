/-
One update for one member (`netudp_server_replicate`, `src/server.cpp`).

The update is serialized and put in the queue of one channel, as a state update, which
takes the place of one of the entity that waits, or with a plain send.  `Takes` is all that
has to be the case for the queue to have it afterwards.  If it is not the case the send is
refused and nothing changes.

How much room there is for a number of updates that come one after the other is said by
`placesWith`: the places in use once they have all been queued.
-/
import Mathlib.Data.List.ReduceOption
import Netudp.Proofs.SendQueue
import Netudp.Server.Replicate

namespace Netudp

open Lib

variable {Key Ct : Type}

/-! ### Places in a queue -/

/-- What a message of the entity waits under. -/
def stateKey (flags : SendFlags) (eid : Nat) : Option Nat :=
  if hasFlag flags sendState then sendKey eid else none

namespace Channel

/-- A message with the data is in the queue. -/
def Queued (c : Channel) (data : Bytes) : Prop := ∃ msg ∈ c.queue, msg.data = data

/-- The entities with a state update in the queue. -/
def pendingStates (c : Channel) : List Nat :=
  (c.queue.map fun msg => stateKey msg.flags msg.entityId).reduceOption

/-- How many places are in use once messages with the keys have been queued. -/
def placesWith (c : Channel) (keys : List (Option Nat)) : Nat :=
  c.sendQueue.size + newPlaces c.pendingStates keys

/-- The queue has taken the message. -/
structure Took (c c' : Channel) (key : Option Nat) (data : Bytes) : Prop where
  config : c'.config = c.config
  places : ∀ keys, c'.placesWith keys = c.placesWith (key :: keys)
  queued : c'.Queued data
  appended : (∀ k ∈ c.pendingStates, key ≠ some k) →
    c'.queue.map QueuedMessage.data = c.queue.map QueuedMessage.data ++ [data]

variable {c c' : Channel} {data : Bytes} {flags : SendFlags} {eid : Nat} {key : Option Nat}

theorem size_eq_length (c : Channel) : c.sendQueue.size = c.queue.length :=
  FixedRingBuffer.length_toList.symm

theorem mem_pendingStates (heid : eid ≠ 0) :
    eid ∈ c.pendingStates ↔ ∃ msg ∈ c.queue, msg.IsState eid := by
  simp only [pendingStates, List.reduceOption_mem_iff, List.mem_map, stateKey, sendKey,
    QueuedMessage.IsState]
  refine exists_congr fun msg => and_congr_right fun _ => ?_
  by_cases hflag : hasFlag msg.flags sendState = true
  · by_cases hzero : msg.entityId = 0
    · simp [hflag, hzero, Ne.symm heid]
    · simp [hflag, hzero]
  · simp [hflag]

theorem findState_eq_none_iff (heid : eid ≠ 0) :
    findState c.sendQueue eid c.sendQueue.size = none ↔ eid ∉ c.pendingStates := by
  rw [mem_pendingStates heid]
  constructor
  · rintro hnone ⟨msg, hmsg, hstate⟩
    obtain ⟨i, hi⟩ := List.mem_iff_getElem?.mp hmsg
    have hlt : i < c.sendQueue.size := by
      rw [size_eq_length]
      exact (List.getElem?_eq_some_iff.mp hi).1
    obtain rfl := Option.some.inj ((FixedRingBuffer.getElem?_toList hlt).symm.trans hi)
    exact findState_none hnone hlt hstate
  · intro hnone
    cases hfound : findState c.sendQueue eid c.sendQueue.size with
    | none => rfl
    | some i =>
      obtain ⟨hi, hstate⟩ := findState_some hfound
      exact absurd ⟨_, List.mem_of_getElem? (FixedRingBuffer.getElem?_toList hi), hstate⟩ hnone

/-- A message at the end takes a place. -/
theorem took_enqueue (hroom : c.sendQueue.size < 256)
    (hnew : ¬ ∃ k ∈ c.pendingStates, stateKey flags eid = some k) (data : Bytes) :
    ∃ q, c.enqueue data flags eid = (true, q) ∧ c.Took q (stateKey flags eid) data := by
  have haccepted : (c.enqueue data flags eid).1 = true := by
    rw [enqueue, if_neg (Nat.ne_of_lt hroom)]
  refine ⟨_, Prod.ext haccepted rfl, ?_⟩
  obtain ⟨hqueue, -, hconfig, -⟩ := enqueue_true (Prod.ext haccepted rfl)
  have hpending : (c.enqueue data flags eid).2.pendingStates =
      c.pendingStates ++ (stateKey flags eid).toList := by
    rw [pendingStates, hqueue, List.map_append, List.reduceOption_append, ← pendingStates]
    cases hkey : stateKey flags eid <;> simp [hkey]
  refine ⟨hconfig, fun keys => ?_, ⟨⟨data, c.sendSeq, eid, flags, true⟩, ?_, rfl⟩, fun _ => ?_⟩
  · rw [placesWith, placesWith, newPlaces, if_neg hnew, hpending, size_eq_length, hqueue,
      List.length_append, ← size_eq_length, List.length_singleton]
    omega
  · rw [hqueue]
    exact List.mem_append_right _ (List.mem_singleton.mpr rfl)
  · rw [hqueue, List.map_append]
    rfl

/-- A message in the place of another takes none. -/
theorem took_replace {i : Nat} (hi : i < c.sendQueue.size)
    (hold : (c.sendQueue.get i).IsState eid) (hflag : hasFlag flags sendState = true)
    (heid : eid ≠ 0) (data : Bytes) {q : Channel} (hconfig : q.config = c.config)
    (hqueue : q.queue =
      c.queue.set i { c.sendQueue.get i with data := data, flags := flags }) :
    c.Took q (stateKey flags eid) data := by
  have hat : c.queue[i]? = some (c.sendQueue.get i) := FixedRingBuffer.getElem?_toList hi
  obtain ⟨hlt, hget⟩ := List.getElem?_eq_some_iff.mp hat
  have hkey : stateKey flags eid = some eid := by simp [stateKey, sendKey, hflag, heid]
  have hpending : q.pendingStates = c.pendingStates := by
    rw [pendingStates, pendingStates, hqueue, List.map_set]
    have hbound : i < (c.queue.map fun msg => stateKey msg.flags msg.entityId).length := by
      rwa [List.length_map]
    have hsame : stateKey flags (c.sendQueue.get i).entityId =
        (c.queue.map fun msg => stateKey msg.flags msg.entityId)[i] := by
      simp only [List.getElem_map, hget, stateKey, hflag, hold.2]
    rw [hsame, List.set_getElem_self]
  have hmem : eid ∈ c.pendingStates :=
    (mem_pendingStates heid).mpr ⟨_, List.mem_of_getElem? hat, hold⟩
  refine ⟨hconfig, fun keys => ?_,
    ⟨{ c.sendQueue.get i with data := data, flags := flags }, ?_, rfl⟩,
    fun hnew => absurd hkey (hnew eid hmem)⟩
  · rw [placesWith, placesWith, newPlaces, if_pos ⟨eid, hmem, hkey⟩, hpending, size_eq_length,
      size_eq_length, hqueue, List.length_set]
  · rw [hqueue]
    exact List.mem_set hlt _

/-- **A queue takes a message of the right size that finds a place.** -/
theorem queueSendImpl_took (flags : SendFlags) (eid : Nat) (hsome : data ≠ [])
    (hsize : data.length ≤ mtu) (hroom : c.placesWith [stateKey flags eid] ≤ 256) :
    ∃ q, c.queueSendImpl data flags eid = (true, q) ∧ c.Took q (stateKey flags eid) data := by
  have hlen : ¬ (data.length = 0 ∨ mtu < data.length) := by
    rw [List.length_eq_zero_iff, not_or, not_lt]
    exact ⟨hsome, hsize⟩
  have happend : (¬ ∃ k ∈ c.pendingStates, stateKey flags eid = some k) →
      ∃ q, c.enqueue data flags eid = (true, q) ∧ c.Took q (stateKey flags eid) data := by
    intro hnew
    refine took_enqueue ?_ hnew data
    rw [placesWith, newPlaces, if_neg hnew] at hroom
    omega
  rw [queueSendImpl, if_neg hlen]
  by_cases hstate : hasFlag flags sendState = true ∧ eid ≠ 0
  · have hkey : stateKey flags eid = some eid := by simp [stateKey, sendKey, hstate]
    rw [if_pos hstate]
    cases hfound : findState c.sendQueue eid c.sendQueue.size with
    | none =>
      refine happend ?_
      rintro ⟨k, hk, hsame⟩
      obtain rfl := Option.some.inj (hkey.symm.trans hsame)
      exact (findState_eq_none_iff hstate.2).mp hfound hk
    | some i =>
      obtain ⟨hi, hold⟩ := findState_some hfound
      refine ⟨_, rfl, took_replace hi hold hstate.1 hstate.2 data ?_ ?_⟩
      · unfold bypassNagle
        split <;> rfl
      · unfold bypassNagle
        split <;> exact FixedRingBuffer.toList_set hi _
  · rw [if_neg hstate]
    refine happend ?_
    rintro ⟨k, -, hsame⟩
    simp only [stateKey, sendKey] at hsame
    split at hsame
    · rename_i hflag
      split at hsame
      · cases hsame
      · rename_i hne
        exact hstate ⟨hflag, hne⟩
    · cases hsame

/-- It refuses any other, and is as it was. -/
theorem queueSendImpl_refused (flags : SendFlags) (eid : Nat) (h : ¬ (data ≠ [] ∧ data.length ≤ mtu ∧
      c.placesWith [stateKey flags eid] ≤ 256)) :
    c.queueSendImpl data flags eid = (false, c) := by
  rw [queueSendImpl]
  by_cases hlen : data.length = 0 ∨ mtu < data.length
  · rw [if_pos hlen]
  · rw [if_neg hlen]
    rw [List.length_eq_zero_iff, not_or, not_lt] at hlen
    have hfull : ¬ c.placesWith [stateKey flags eid] ≤ 256 := fun hroom =>
      h ⟨hlen.1, hlen.2, hroom⟩
    have hle := c.sendQueue.size_le
    have hnew : ¬ ∃ k ∈ c.pendingStates, stateKey flags eid = some k := by
      intro hheld
      rw [placesWith, newPlaces, if_pos hheld] at hfull
      exact hfull hle
    have hsize : c.sendQueue.size = 256 := by
      rw [placesWith, newPlaces, if_neg hnew, newPlaces] at hfull
      omega
    split
    · rename_i hstate
      have hkey : stateKey flags eid = some eid := by simp [stateKey, sendKey, hstate]
      rw [(findState_eq_none_iff hstate.2).mpr fun hmem => hnew ⟨eid, hmem, hkey⟩]
      exact enqueue_full hsize data flags eid
    · exact enqueue_full hsize data flags eid

end Channel

/-! ### Turns -/

/-- A member's turn: the entity whose update it gets, and the channel. -/
structure Turn where
  entity : Entity
  channel : Nat
  client : Nat

namespace Turn

/-- What is serialized, with nothing for an error. -/
def wire (Q : Quantizers) (t : Turn) : Bytes :=
  (replicateSerialize Q t.entity (entityMaxValueSize + 32) t.client t.entity.needsInitial).getD []

/-- What the update waits under. -/
def key (t : Turn) : Option Nat := if t.entity.anyReliable then none else sendKey t.entity.entityId

end Turn

section Send

variable (C : Primitives Key Ct) (Q : Quantizers) (cfg : ServerConfig)

/-- The update of the turn fits the wire and the kind of the channel. -/
@[mk_iff]
structure Connection.Suits (c : Connection Key) (t : Turn) : Prop where
  some : t.wire Q ≠ []
  size : (t.wire Q).length ≤ mtu
  present : t.channel < c.numChannels
  kind : t.entity.anyReliable = false → (c.ch t.channel).config.type.isReliable = false

/-- The connection takes the update of the turn. -/
structure Server.Takes (s : Server Key) (t : Turn) : Prop where
  inRange : t.client < cfg.maxClients
  active : (s.connections t.client).active = true
  suits : (s.connections t.client).Suits Q t
  room : ((s.connections t.client).ch t.channel).placesWith [t.key] ≤ 256

/-- The server after the turn. -/
def Server.takeTurn (s : Server Key) (t : Turn) : Server Key :=
  (s.replicateTo C Q cfg t.entity t.channel t.client).1

/-- The server with a new queue for the channel of the turn. -/
def Server.withQueue (s : Server Key) (t : Turn) (q : Channel) : Server Key :=
  s.setConnection t.client
    (((s.connections t.client).setCh t.channel q).markPending t.channel s.currentTime)

theorem Server.setConnection_same (s : Server Key) (client : Nat) :
    s.setConnection client (s.connections client) = s := by
  simp only [Server.setConnection, Function.update_eq_self]

/-- What the order of the turns and the choice of channels depend on has not changed. -/
structure Server.Steady (s s' : Server Key) : Prop where
  time : s'.currentTime = s.currentTime
  active : ∀ i, (s'.connections i).active = (s.connections i).active
  numChannels : ∀ i, (s'.connections i).numChannels = (s.connections i).numChannels
  config : ∀ i ch, ((s'.connections i).ch ch).config = ((s.connections i).ch ch).config

variable {C Q cfg} {s s' : Server Key} {t : Turn} {q : Channel}

theorem Server.Steady.refl (s : Server Key) : s.Steady s :=
  ⟨rfl, fun _ => rfl, fun _ => rfl, fun _ _ => rfl⟩

theorem Server.Steady.trans {s'' : Server Key} (h : s.Steady s') (h' : s'.Steady s'') :
    s.Steady s'' :=
  ⟨h'.time.trans h.time, fun i => (h'.active i).trans (h.active i),
    fun i => (h'.numChannels i).trans (h.numChannels i),
    fun i ch => (h'.config i ch).trans (h.config i ch)⟩

theorem Server.Steady.suits (h : s.Steady s') :
    (s'.connections t.client).Suits Q t ↔ (s.connections t.client).Suits Q t := by
  rw [Connection.suits_iff, Connection.suits_iff, h.numChannels, h.config]

theorem ch_withQueue (s : Server Key) (t : Turn) (q : Channel) (client channel : Nat) :
    ((s.withQueue t q).connections client).ch channel =
      if client = t.client ∧ channel % 4 = t.channel % 4 then q.startNagle s.currentTime
      else (s.connections client).ch channel := by
  unfold Server.withQueue
  by_cases hclient : client = t.client
  · subst hclient
    rw [Server.setConnection_self, ch_markPending]
    simp
  · rw [Server.setConnection_of_ne s hclient, if_neg fun h => hclient h.1]

theorem steady_withQueue
    (hconfig : q.config = ((s.connections t.client).ch t.channel).config) :
    s.Steady (s.withQueue t q) := by
  have hconnection : ∀ i, ((s.withQueue t q).connections i).active = (s.connections i).active ∧
      ((s.withQueue t q).connections i).numChannels = (s.connections i).numChannels := by
    intro i
    unfold Server.withQueue
    by_cases hi : i = t.client
    · rw [hi, Server.setConnection_self, markPending_setCh]
      exact ⟨rfl, rfl⟩
    · rw [Server.setConnection_of_ne s hi]
      exact ⟨rfl, rfl⟩
  refine ⟨rfl, fun i => (hconnection i).1, fun i => (hconnection i).2, fun i ch => ?_⟩
  rw [ch_withQueue]
  split
  · rename_i hsame
    rw [Channel.config_startNagle, hconfig, hsame.1, Connection.ch_congr _ hsame.2]
  · rfl

theorem replicateTo_nothing (hnil : t.wire Q = []) :
    s.replicateTo C Q cfg t.entity t.channel t.client = (s, []) := by
  unfold Turn.wire at hnil
  unfold Server.replicateTo
  cases hwire : replicateSerialize Q t.entity (entityMaxValueSize + 32) t.client
      t.entity.needsInitial with
  | none => rfl
  | some wire =>
    rw [hwire, Option.getD_some] at hnil
    rw [hnil]

theorem replicateTo_sends (hsome : t.wire Q ≠ []) :
    s.replicateTo C Q cfg t.entity t.channel t.client =
      let sent := if t.entity.anyReliable then s.send C cfg t.client t.channel (t.wire Q) 0
        else s.sendState cfg t.client t.channel t.entity.entityId (t.wire Q)
      (sent.2, [sent.1]) := by
  unfold Turn.wire at hsome ⊢
  unfold Server.replicateTo
  cases hwire : replicateSerialize Q t.entity (entityMaxValueSize + 32) t.client
      t.entity.needsInitial with
  | none =>
    rw [hwire] at hsome
    exact absurd rfl hsome
  | some wire =>
    rw [hwire, Option.getD_some] at hsome
    obtain ⟨b, rest, rfl⟩ := List.exists_cons_of_ne_nil hsome
    rfl

/-- **The update that is taken is in the queue.** -/
theorem replicateTo_taken (h : s.Takes Q cfg t) :
    ∃ q, ((s.connections t.client).ch t.channel).Took q t.key (t.wire Q) ∧
      s.replicateTo C Q cfg t.entity t.channel t.client = (s.withQueue t q, [.ok]) := by
  obtain ⟨hrange, hactive, ⟨hsome, hsize, hpresent, hkind⟩, hroom⟩ := h
  have hidle : ¬ (!(s.connections t.client).active) = true := by simp [hactive]
  rw [replicateTo_sends hsome]
  unfold Turn.key at hroom ⊢
  cases hreliable : t.entity.anyReliable with
  | true =>
    rw [hreliable] at hroom
    obtain ⟨q, hq, htook⟩ := Channel.queueSendImpl_took 0 0 hsome hsize hroom
    have hflags : ¬ hasFlag 0 sendNoDelay = true := by decide
    refine ⟨q, htook, ?_⟩
    simp only [if_true, Server.send, if_neg (Nat.not_le.mpr hrange), serverSend, if_neg hidle,
      if_neg (Nat.not_le.mpr hpresent), Connection.queueMessage, Channel.queueSend, hq,
      if_neg hflags, Server.withQueue]
  | false =>
    rw [hreliable] at hroom
    obtain ⟨q, hq, htook⟩ := Channel.queueSendImpl_took (0 ||| sendState) t.entity.entityId
      hsome hsize hroom
    refine ⟨q, htook, ?_⟩
    simp only [Bool.false_eq_true, if_false, Server.sendState, if_neg (Nat.not_le.mpr hrange),
      serverSendState, if_neg hidle, if_neg (Nat.not_le.mpr hpresent), hkind hreliable,
      Channel.queueSendState, hq, Server.withQueue]

/-- **One that is not taken changes nothing.** -/
theorem replicateTo_refused (hsome : t.wire Q ≠ []) (h : ¬ s.Takes Q cfg t) :
    ∃ result, result ≠ .ok ∧
      s.replicateTo C Q cfg t.entity t.channel t.client = (s, [result]) := by
  have hrefused : ∀ flags eid, stateKey flags eid = t.key →
      t.client < cfg.maxClients → (s.connections t.client).active = true →
      t.channel < (s.connections t.client).numChannels →
      (t.entity.anyReliable = false →
        ((s.connections t.client).ch t.channel).config.type.isReliable = false) →
      ((s.connections t.client).ch t.channel).queueSendImpl (t.wire Q) flags eid =
        (false, (s.connections t.client).ch t.channel) := by
    intro flags eid hkey hrange hactive hpresent hkind
    refine Channel.queueSendImpl_refused flags eid fun ⟨_, hsize, hroom⟩ => h ?_
    exact ⟨hrange, hactive, ⟨hsome, hsize, hpresent, hkind⟩, hkey ▸ hroom⟩
  have hsame := s.setConnection_same t.client
  rw [replicateTo_sends hsome]
  cases hreliable : t.entity.anyReliable with
  | true =>
    have hkey : stateKey 0 0 = t.key := by rw [Turn.key, hreliable]; rfl
    simp only [if_true, Server.send]
    split
    · exact ⟨.invalidParam, by decide, rfl⟩
    rename_i hrange
    simp only [serverSend]
    split
    · exact ⟨.notConnected, by decide, by rw [hsame]⟩
    split
    · exact ⟨.invalidParam, by decide, by rw [hsame]⟩
    rename_i hidle hpresent
    simp only [Connection.queueMessage, Channel.queueSend, hrefused 0 0 hkey
      (Nat.not_le.mp hrange) (by simpa using hidle) (Nat.not_le.mp hpresent)
      (fun hplain => by rw [hreliable] at hplain; cases hplain)]
    exact ⟨.noBuffers, by decide, by rw [hsame]⟩
  | false =>
    have hkey : stateKey (0 ||| sendState) t.entity.entityId = t.key := by
      rw [Turn.key, hreliable]
      rfl
    simp only [Bool.false_eq_true, if_false, Server.sendState]
    split
    · exact ⟨.invalidParam, by decide, rfl⟩
    rename_i hrange
    simp only [serverSendState]
    split
    · exact ⟨.notConnected, by decide, by rw [hsame]⟩
    split
    · exact ⟨.invalidParam, by decide, by rw [hsame]⟩
    split
    · exact ⟨.invalidParam, by decide, by rw [hsame]⟩
    rename_i hidle hpresent hkind
    simp only [Channel.queueSendState, hrefused _ _ hkey (Nat.not_le.mp hrange)
      (by simpa using hidle) (Nat.not_le.mp hpresent) (fun _ => by simpa using hkind)]
    exact ⟨.noBuffers, by decide, by rw [hsame]⟩

/-- **A turn moves nothing that another depends on.** -/
theorem steady_takeTurn (s : Server Key) (t : Turn) : s.Steady (s.takeTurn C Q cfg t) := by
  unfold Server.takeTurn
  by_cases hsome : t.wire Q = []
  · rw [replicateTo_nothing hsome]
    exact .refl s
  by_cases htakes : s.Takes Q cfg t
  · obtain ⟨q, htook, heq⟩ := replicateTo_taken (C := C) htakes
    rw [heq]
    exact steady_withQueue htook.config
  · obtain ⟨result, -, heq⟩ := replicateTo_refused (C := C) hsome htakes
    rw [heq]
    exact .refl s

end Send

end Netudp
