/-
Every queued packet is handed on once.

The ring is a queue of at most 4095 packets, so what is popped is what was pushed, in
order.  The update hands on what it pops, but it pops before it asks whether it has
drained 4096 packets: if more have come in meanwhile, the one it has popped is lost.
-/
import Netudp.Proofs.NonceReuse
import Netudp.Server.Pipeline

namespace Netudp

open Lib

variable {Key Ct : Type} {C : Primitives Key Ct} {T : TokenOps Key} {cfg : ServerConfig}
  {simEnabled : Bool}

/-! ### The ring is a queue -/

namespace PipelineRecvQueue

variable {α : Type} {q : PipelineRecvQueue α}

/-- The packets in the ring, oldest first. -/
def toList (q : PipelineRecvQueue α) : List α := q.ring.stretch q.tail q.count

theorem length_toList (q : PipelineRecvQueue α) : q.toList.length = q.count :=
  Table.length_stretch

theorem toList_empty [Inhabited α] : (empty : PipelineRecvQueue α).toList = [] :=
  List.length_eq_zero_iff.mp (length_toList _)

/-- The producer is `count` cells ahead of the consumer. -/
theorem head_eq (q : PipelineRecvQueue α) :
    q.head = (q.tail + q.count) % pipelineQueueSize ∧ q.count < pipelineQueueSize := by
  have hhead := q.head_lt
  have htail := q.tail_lt
  unfold count
  unfold pipelineQueueSize at *
  split
  · omega
  · omega

/-- `count` is the only distance that fits. -/
theorem count_eq {n : Nat} (hn : n < pipelineQueueSize)
    (hhead : q.head = (q.tail + n) % pipelineQueueSize) : q.count = n := by
  have htail := q.tail_lt
  unfold count
  unfold pipelineQueueSize at *
  split
  · omega
  · omega

/-- A ring with 4095 packets takes no more. -/
theorem push_full (hfull : q.count + 1 = pipelineQueueSize) (item : α) :
    q.push item = (false, q) := by
  have htail := q.tail_lt
  have hnext : (q.head + 1) % pipelineQueueSize = q.tail := by
    rw [q.head_eq.1, Nat.mod_add_mod, Nat.add_assoc, hfull, Nat.add_mod_right, Nat.mod_eq_of_lt htail]
  rw [push, if_pos hnext]

theorem push_room (hroom : q.count + 1 < pipelineQueueSize) (item : α) :
    (q.push item).1 = true ∧ (q.push item).2.toList = q.toList ++ [item] := by
  obtain ⟨hhead, hcount⟩ := q.head_eq
  have htail := q.tail_lt
  have hnext : (q.head + 1) % pipelineQueueSize = (q.tail + (q.count + 1)) % pipelineQueueSize := by
    rw [hhead, Nat.mod_add_mod, Nat.add_assoc]
  have hne : (q.head + 1) % pipelineQueueSize ≠ q.tail := by
    have hself : q.tail % pipelineQueueSize = q.tail := Nat.mod_eq_of_lt htail
    rw [hnext, ← hself, Nat.mod_add_mod]
    exact mod_ne_of_near (by omega) (by omega) (by omega)
  have hwritten : q.ring.set q.head item = q.ring.set (q.tail + q.count) item :=
    Table.set_congr _ _ (by rw [hhead, Nat.mod_mod])
  rw [push, if_neg hne]
  refine ⟨rfl, ?_⟩
  rw [toList, count_eq hroom hnext]
  show (q.ring.set q.head item).stretch q.tail (q.count + 1) = q.toList ++ [item]
  rw [hwritten, Table.stretch_set_end hcount, toList]

theorem pop_nil (h : q.toList = []) : q.pop = (none, q) := by
  have hcount : q.count = 0 := by rw [← length_toList, h, List.length_nil]
  have hsame : q.tail = q.head := by
    rw [q.head_eq.1, hcount, Nat.add_zero, Nat.mod_eq_of_lt q.tail_lt]
  rw [pop, if_pos hsame]

theorem pop_cons {x : α} {rest : List α} (h : q.toList = x :: rest) :
    q.pop.1 = some x ∧ q.pop.2.toList = rest := by
  obtain ⟨hhead, hlt⟩ := q.head_eq
  have hcount : q.count = rest.length + 1 := by rw [← length_toList, h, List.length_cons]
  have hne : q.tail ≠ q.head := by
    rw [hhead]
    have hself : q.tail % pipelineQueueSize = q.tail := Nat.mod_eq_of_lt q.tail_lt
    have hfar : q.tail % pipelineQueueSize ≠ (q.tail + q.count) % pipelineQueueSize :=
      mod_ne_of_near (by omega) (by omega) (by omega)
    rwa [hself] at hfar
  have hnext : q.head = ((q.tail + 1) % pipelineQueueSize + rest.length) % pipelineQueueSize := by
    rw [hhead, hcount, Nat.mod_add_mod, Nat.add_assoc, Nat.add_comm 1]
  rw [toList, hcount, Table.stretch_succ] at h
  obtain ⟨hx, hrest⟩ := List.cons.inj h
  rw [pop, if_neg hne, ← hx]
  refine ⟨rfl, ?_⟩
  rw [toList, count_eq (by omega) hnext]
  show q.ring.stretch ((q.tail + 1) % pipelineQueueSize) rest.length = rest
  rw [Table.stretch_mod, hrest]

end PipelineRecvQueue

/-! ### What is pushed, popped and handed on -/

/-- The packets whose push returned true, in order. -/
def accepted (acts : List (PipelineAction Key Ct)) : List (QueuedInPacket Ct) :=
  acts.filterMap fun
    | .pushed packet true => some packet
    | _ => none

/-- The packets that were popped, in order. -/
def popped (acts : List (PipelineAction Key Ct)) : List (QueuedInPacket Ct) :=
  acts.filterMap fun
    | .popped packet => some packet
    | _ => none

/-- The packets that were handed on, each time they were. -/
def handed (acts : List (PipelineAction Key Ct)) : List (QueuedInPacket Ct) :=
  acts.filterMap fun
    | .handed packet _ => some packet
    | _ => none

@[simp] theorem accepted_append (acts more : List (PipelineAction Key Ct)) :
    accepted (acts ++ more) = accepted acts ++ accepted more := List.filterMap_append

@[simp] theorem popped_append (acts more : List (PipelineAction Key Ct)) :
    popped (acts ++ more) = popped acts ++ popped more := List.filterMap_append

@[simp] theorem handed_append (acts more : List (PipelineAction Key Ct)) :
    handed (acts ++ more) = handed acts ++ handed more := List.filterMap_append

/-- A run of the pipeline with everything it did. -/
def pipelineRecord (C : Primitives Key Ct) (T : TokenOps Key) (cfg : ServerConfig)
    (simEnabled : Bool) (r : Pipeline Key Ct × List (PipelineAction Key Ct))
    (ev : PipelineEvent Ct) : Pipeline Key Ct × List (PipelineAction Key Ct) :=
  let (p, acts) := pipelineStep C T cfg simEnabled r.1 ev
  (p, r.2 ++ acts)

/-- No packet is waiting when a loop that has drained 4096 is about to pop. -/
def NoneLeft (r : Pipeline Key Ct × List (PipelineAction Key Ct)) (ev : PipelineEvent Ct) : Prop :=
  ev = .drain → r.1.drained = some 4096 → r.1.recvQueue.toList = []

instance (r : Pipeline Key Ct × List (PipelineAction Key Ct)) :
    ∀ ev : PipelineEvent Ct, Decidable (NoneLeft r ev)
  | .drain => decidable_of_iff (r.1.drained = some 4096 → r.1.recvQueue.toList = [])
      ⟨fun h _ => h, fun h => h rfl⟩
  | .push _ | .beginUpdate _ | .server _ | .cleanup => isTrue fun hev => nomatch hev

/-! ### One step -/

theorem handOn_recvQueue (p : Pipeline Key Ct) (qpkt : QueuedInPacket Ct) :
    (p.handOn C T cfg simEnabled qpkt).1.recvQueue = p.recvQueue := by
  simp only [Pipeline.handOn]
  split
  · rfl
  · split
    · rfl
    · rfl

/-- What a step can do, given the packets in the ring before and after. -/
inductive Effect (p p' : Pipeline Key Ct) :
    PipelineEvent Ct → List (PipelineAction Key Ct) → Prop where
  /-- Nothing goes in or comes out; a loop may begin or end. -/
  | quiet {ev : PipelineEvent Ct} {acts : List (PipelineAction Key Ct)}
      (hqueue : p'.recvQueue.toList = p.recvQueue.toList)
      (hdrained : p'.drained = p.drained ∨ p'.drained = some 0 ∨ p'.drained = none)
      (hacts : acts = [] ∨ ∃ packet, acts = [.pushed packet false]) : Effect p p' ev acts
  | enters (packet : QueuedInPacket Ct)
      (hqueue : p'.recvQueue.toList = p.recvQueue.toList ++ [packet])
      (hdrained : p'.drained = p.drained) : Effect p p' (.push packet) [.pushed packet true]
  | handedOn (packet : QueuedInPacket Ct) (how : HandedTo Key Ct) {drained : Nat}
      (hqueue : p.recvQueue.toList = packet :: p'.recvQueue.toList) (hbound : drained < 4096)
      (hdrained : p'.drained = some (drained + 1)) :
      Effect p p' .drain [.popped packet, .handed packet how]
  /-- The loop ends with a packet popped. -/
  | lost (packet : QueuedInPacket Ct) {drained : Nat}
      (hqueue : p.recvQueue.toList = packet :: p'.recvQueue.toList) (hbound : 4096 ≤ drained)
      (hbefore : p.drained = some drained) (hdrained : p'.drained = none) :
      Effect p p' .drain [.popped packet]

section Round

variable {p : Pipeline Key Ct} {qpkt : QueuedInPacket Ct} {rest : List (QueuedInPacket Ct)}
  {drained : Nat} (C : Primitives Key Ct) (T : TokenOps Key) (cfg : ServerConfig)
  (simEnabled : Bool)

theorem drainRound_handed (h : p.recvQueue.toList = qpkt :: rest) (hbound : drained < 4096) :
    ∃ p' how, p.drainRound C T cfg simEnabled drained = (p', [.popped qpkt, .handed qpkt how]) ∧
      p'.recvQueue.toList = rest ∧ p'.drained = some (drained + 1) := by
  obtain ⟨hpop, hrest⟩ := PipelineRecvQueue.pop_cons h
  have hboth : p.recvQueue.pop = (some qpkt, p.recvQueue.pop.2) := Prod.ext hpop rfl
  rw [Pipeline.drainRound, hboth]
  dsimp only
  rw [if_pos hbound]
  refine ⟨_, _, rfl, ?_, rfl⟩
  rw [handOn_recvQueue]
  exact hrest

/-- A round that has drained 4096 pops the oldest packet all the same. -/
theorem drainRound_lost (h : p.recvQueue.toList = qpkt :: rest) (hbound : 4096 ≤ drained) :
    ∃ p', p.drainRound C T cfg simEnabled drained = (p', [.popped qpkt]) ∧
      p'.recvQueue.toList = rest ∧ p'.drained = none := by
  obtain ⟨hpop, hrest⟩ := PipelineRecvQueue.pop_cons h
  have hboth : p.recvQueue.pop = (some qpkt, p.recvQueue.pop.2) := Prod.ext hpop rfl
  rw [Pipeline.drainRound, hboth]
  dsimp only
  rw [if_neg (Nat.not_lt.mpr hbound)]
  exact ⟨_, rfl, hrest, rfl⟩

theorem drainRound_effect (hd : p.drained = some drained) :
    Effect p (p.drainRound C T cfg simEnabled drained).1 .drain
      (p.drainRound C T cfg simEnabled drained).2 := by
  cases hqueue : p.recvQueue.toList with
  | nil =>
    rw [Pipeline.drainRound, PipelineRecvQueue.pop_nil hqueue]
    exact .quiet rfl (Or.inr (Or.inr rfl)) (Or.inl rfl)
  | cons qpkt rest =>
    rcases Nat.lt_or_ge drained 4096 with hbound | hbound
    · obtain ⟨p', how, hround, hrest, hnext⟩ := drainRound_handed C T cfg simEnabled hqueue hbound
      rw [hround]
      exact .handedOn qpkt how (by rw [hqueue, hrest]) hbound hnext
    · obtain ⟨p', hround, hrest, hnext⟩ := drainRound_lost C T cfg simEnabled hqueue hbound
      rw [hround]
      exact .lost qpkt (by rw [hqueue, hrest]) hbound hd hnext

end Round

theorem pipelineStep_effect (p : Pipeline Key Ct) (ev : PipelineEvent Ct) :
    Effect p (pipelineStep C T cfg simEnabled p ev).1 ev
      (pipelineStep C T cfg simEnabled p ev).2 := by
  cases ev with
  | push packet =>
    have hcount := p.recvQueue.head_eq.2
    rcases Nat.lt_or_ge (p.recvQueue.count + 1) pipelineQueueSize with hroom | hfull
    · obtain ⟨hok, hqueue⟩ := PipelineRecvQueue.push_room hroom packet
      simp only [pipelineStep, hok]
      exact .enters packet hqueue rfl
    · have hfull' : p.recvQueue.count + 1 = pipelineQueueSize := by omega
      simp only [pipelineStep, PipelineRecvQueue.push_full hfull' packet]
      exact .quiet rfl (Or.inl rfl) (Or.inr ⟨packet, rfl⟩)
  | beginUpdate time =>
    simp only [pipelineStep]
    split
    · exact .quiet rfl (Or.inl rfl) (Or.inl rfl)
    · exact .quiet rfl (Or.inr (Or.inl rfl)) (Or.inl rfl)
  | drain =>
    cases hdrained : p.drained with
    | none =>
      simp only [pipelineStep, hdrained]
      exact .quiet rfl (Or.inl rfl) (Or.inl rfl)
    | some drained =>
      simp only [pipelineStep, hdrained]
      exact drainRound_effect C T cfg simEnabled hdrained
  | server ev =>
    simp only [pipelineStep]
    split
    · exact .quiet rfl (Or.inl rfl) (Or.inl rfl)
    · exact .quiet rfl (Or.inl rfl) (Or.inl rfl)
  | cleanup =>
    simp only [pipelineStep]
    split
    · exact .quiet rfl (Or.inl rfl) (Or.inl rfl)
    · exact .quiet rfl (Or.inl rfl) (Or.inl rfl)

namespace Effect

variable {p p' : Pipeline Key Ct} {ev : PipelineEvent Ct} {acts : List (PipelineAction Key Ct)}

/-- What was in the ring and what came in is what went out and what is in the ring now, in
order. -/
theorem fifo (h : Effect p p' ev acts) :
    p.recvQueue.toList ++ accepted acts = popped acts ++ p'.recvQueue.toList := by
  cases h with
  | quiet hqueue hdrained hacts =>
    rcases hacts with rfl | ⟨packet, rfl⟩
    · rw [hqueue]
      exact List.append_nil _
    · rw [hqueue]
      exact List.append_nil _
  | enters packet hqueue hdrained => exact hqueue.symm
  | handedOn packet how hqueue hbound hdrained =>
    rw [hqueue]
    exact List.append_nil _
  | lost packet hqueue hbound hbefore hdrained =>
    rw [hqueue]
    exact List.append_nil _

/-- The loop counts to 4096 at most. -/
theorem drained_le (h : Effect p p' ev acts) (hle : ∀ d, p.drained = some d → d ≤ 4096) (d : Nat)
    (hd : p'.drained = some d) : d ≤ 4096 := by
  cases h with
  | quiet hqueue hdrained hacts =>
    rcases hdrained with heq | hzero | hnone
    · exact hle d (heq ▸ hd)
    · rw [hzero] at hd
      exact Option.some.inj hd ▸ Nat.zero_le _
    · rw [hnone] at hd
      exact absurd hd.symm (Option.some_ne_none d)
  | enters packet hqueue hdrained => exact hle d (hdrained ▸ hd)
  | handedOn packet how hqueue hbound hdrained =>
    rw [hdrained] at hd
    exact Option.some.inj hd ▸ hbound
  | lost packet hqueue hbound hbefore hdrained =>
    rw [hdrained] at hd
    exact absurd hd.symm (Option.some_ne_none d)

/-- What is popped is handed on, if nothing is left when the loop has drained 4096. -/
theorem handed_eq (h : Effect p p' ev acts) (hle : ∀ d, p.drained = some d → d ≤ 4096)
    (hleft : ev = .drain → p.drained = some 4096 → p.recvQueue.toList = []) :
    handed acts = popped acts := by
  cases h with
  | quiet hqueue hdrained hacts =>
    rcases hacts with rfl | ⟨packet, rfl⟩
    · rfl
    · rfl
  | enters packet hqueue hdrained => rfl
  | handedOn packet how hqueue hbound hdrained => rfl
  | @lost packet drained hqueue hbound hbefore hdrained =>
    have hfull : drained = 4096 := Nat.le_antisymm (hle _ hbefore) hbound
    rw [hfull] at hbefore
    rw [hleft rfl hbefore] at hqueue
    exact absurd hqueue (List.cons_ne_nil _ _).symm

end Effect

/-! ### Runs -/

section Runs

variable {r : Pipeline Key Ct × List (PipelineAction Key Ct)} {ev : PipelineEvent Ct}

theorem pipelineRecord_effect (C : Primitives Key Ct) (T : TokenOps Key) (cfg : ServerConfig)
    (simEnabled : Bool) (r : Pipeline Key Ct × List (PipelineAction Key Ct))
    (ev : PipelineEvent Ct) :
    ∃ acts, Effect r.1 (pipelineRecord C T cfg simEnabled r ev).1 ev acts ∧
      (pipelineRecord C T cfg simEnabled r ev).2 = r.2 ++ acts :=
  ⟨_, pipelineStep_effect r.1 ev, rfl⟩

/-- What was pushed is what has been popped and what is in the ring. -/
def InOrder (r : Pipeline Key Ct × List (PipelineAction Key Ct)) : Prop :=
  accepted r.2 = popped r.2 ++ r.1.recvQueue.toList

theorem InOrder.step (h : InOrder r) : InOrder (pipelineRecord C T cfg simEnabled r ev) := by
  obtain ⟨acts, heffect, hlog⟩ := pipelineRecord_effect C T cfg simEnabled r ev
  rw [InOrder, hlog, accepted_append, popped_append, h, List.append_assoc, List.append_assoc,
    heffect.fifo]

/-- What has been popped has been handed on, and the loop is not past 4096. -/
structure HandedOn (r : Pipeline Key Ct × List (PipelineAction Key Ct)) : Prop where
  handed : handed r.2 = popped r.2
  drained : ∀ d, r.1.drained = some d → d ≤ 4096

theorem HandedOn.step (h : HandedOn r) (hleft : NoneLeft r ev) :
    HandedOn (pipelineRecord C T cfg simEnabled r ev) := by
  obtain ⟨acts, heffect, hlog⟩ := pipelineRecord_effect C T cfg simEnabled r ev
  refine ⟨?_, heffect.drained_le h.drained⟩
  rw [hlog, handed_append, popped_append, h.handed, heffect.handed_eq h.drained hleft]

theorem handedOn_start (C : Primitives Key Ct) (cfg : ServerConfig) (time : Time) :
    HandedOn ((Pipeline.start C cfg time, []) : Pipeline Key Ct × List (PipelineAction Key Ct)) :=
  ⟨rfl, fun d hd => absurd hd.symm (Option.some_ne_none d)⟩

end Runs

/-- **What was pushed is what has been popped and what is still in the ring, in order; and what
has been popped has been handed on, once each**, as long as nothing is left in the ring when a
loop has drained 4096. -/
theorem pipeline_hands_on_once (C : Primitives Key Ct) (T : TokenOps Key) (cfg : ServerConfig)
    (simEnabled : Bool) (time : Time) (es : List (PipelineEvent Ct)) :
    let r := run (pipelineRecord C T cfg simEnabled) (.start C cfg time, []) es
    accepted r.2 = popped r.2 ++ r.1.recvQueue.toList ∧
      (Along (pipelineRecord C T cfg simEnabled) NoneLeft (.start C cfg time, []) es →
        handed r.2 = popped r.2) := by
  intro r
  have hempty : InOrder ((Pipeline.start C cfg time, []) :
      Pipeline Key Ct × List (PipelineAction Key Ct)) := PipelineRecvQueue.toList_empty.symm
  refine ⟨run_invariant' InOrder (fun _ _ h => h.step) es hempty, ?_⟩
  intro hleft
  exact (run_invariant HandedOn (fun _ _ h hk => h.step hk) (handedOn_start C cfg time)
    hleft).handed

/-- A packet of a client that is not connected. -/
def strayPacket : QueuedInPacket (Sealed Nat) := ⟨toyAddress, .request []⟩

/-- Two packets come in before an update, one while it is in its loop and one before the next
update; each is popped and handed on by one of the two. -/
theorem pipeline_hands_on_once_twice :
    let es : List (PipelineEvent (Sealed Nat)) :=
      [.push strayPacket, .push ⟨toyAddress, .request [1]⟩, .beginUpdate 1, .drain,
        .push ⟨toyAddress, .request [2]⟩, .drain, .drain, .drain, .push strayPacket,
        .beginUpdate 2, .drain, .drain]
    let start : Pipeline Nat (Sealed Nat) × List (PipelineAction Nat (Sealed Nat)) :=
      (.start toyCipher toyServerConfig 0, [])
    let r := run (pipelineRecord toyCipher toyTokens toyServerConfig false) start es
    Along (pipelineRecord toyCipher toyTokens toyServerConfig false) NoneLeft start es ∧
      (popped r.2).length = 4 ∧ r.1.drained = none ∧ handed r.2 = popped r.2 := by
  intro es start r
  have hleft : Along (pipelineRecord toyCipher toyTokens toyServerConfig false) NoneLeft start
      es := by decide +kernel
  exact ⟨hleft, by decide +kernel, by decide +kernel,
    (pipeline_hands_on_once toyCipher toyTokens toyServerConfig false 0 es).2 hleft⟩

/-! ### More packets than a loop drains -/

section Overrun

variable (C : Primitives Key Ct) (T : TokenOps Key) (cfg : ServerConfig) (simEnabled : Bool)
  {r : Pipeline Key Ct × List (PipelineAction Key Ct)} {d : Nat}

theorem run_push_drain (hempty : r.1.recvQueue.toList = []) (hd : r.1.drained = some d)
    (packet : QueuedInPacket Ct) :
    ∃ p : Pipeline Key Ct, p.recvQueue.toList = [packet] ∧
      run (pipelineRecord C T cfg simEnabled) r [.push packet, .drain] =
        ((p.drainRound C T cfg simEnabled d).1,
          r.2 ++ .pushed packet true :: (p.drainRound C T cfg simEnabled d).2) := by
  have hcount : r.1.recvQueue.count = 0 := by
    rw [← PipelineRecvQueue.length_toList, hempty, List.length_nil]
  have hroom : r.1.recvQueue.count + 1 < pipelineQueueSize := by
    rw [hcount]
    decide
  obtain ⟨hok, hqueue⟩ := PipelineRecvQueue.push_room hroom packet
  rw [hempty] at hqueue
  refine ⟨{ r.1 with recvQueue := (r.1.recvQueue.push packet).2 }, hqueue, ?_⟩
  simp only [run_cons, run_nil, pipelineRecord, pipelineStep, hok, hd, List.append_assoc,
    List.singleton_append]

theorem push_drain (hempty : r.1.recvQueue.toList = []) (hd : r.1.drained = some d)
    (hbound : d < 4096) (packet : QueuedInPacket Ct) :
    let r' := run (pipelineRecord C T cfg simEnabled) r [.push packet, .drain]
    r'.1.recvQueue.toList = [] ∧ r'.1.drained = some (d + 1) ∧
      popped r'.2 = popped r.2 ++ [packet] ∧ handed r'.2 = handed r.2 ++ [packet] := by
  obtain ⟨p, hqueue, hrun⟩ := run_push_drain C T cfg simEnabled hempty hd packet
  obtain ⟨p', how, hround, hrest, hnext⟩ := drainRound_handed C T cfg simEnabled hqueue hbound
  rw [hrun, hround]
  refine ⟨hrest, hnext, ?_, ?_⟩
  · rw [popped_append]
    rfl
  · rw [handed_append]
    rfl

theorem push_drain_lost (hempty : r.1.recvQueue.toList = []) (hd : r.1.drained = some 4096)
    (packet : QueuedInPacket Ct) :
    let r' := run (pipelineRecord C T cfg simEnabled) r [.push packet, .drain]
    popped r'.2 = popped r.2 ++ [packet] ∧ handed r'.2 = handed r.2 := by
  obtain ⟨p, hqueue, hrun⟩ := run_push_drain C T cfg simEnabled hempty hd packet
  obtain ⟨p', hround, -, -⟩ := drainRound_lost C T cfg simEnabled hqueue (Nat.le_refl 4096)
  rw [hrun, hround]
  constructor
  · rw [popped_append]
    rfl
  · rw [handed_append]
    exact List.append_nil _

theorem push_drain_rounds (hempty : r.1.recvQueue.toList = []) (hd : r.1.drained = some 0)
    (packet : QueuedInPacket Ct) {n : Nat} (hn : n ≤ 4096) :
    let r' := run (pipelineRecord C T cfg simEnabled) r (rounds n [.push packet, .drain])
    r'.1.recvQueue.toList = [] ∧ r'.1.drained = some n ∧
      (popped r'.2).length = (popped r.2).length + n ∧
      (handed r'.2).length = (handed r.2).length + n := by
  induction n with
  | zero => exact ⟨hempty, hd, rfl, rfl⟩
  | succ n ih =>
    obtain ⟨hqueue, hdrained, hpopped, hhanded⟩ := ih (by omega)
    obtain ⟨hqueue', hdrained', hpopped', hhanded'⟩ :=
      push_drain C T cfg simEnabled hqueue hdrained (by omega) packet
    intro r'
    have hr' : r' = run (pipelineRecord C T cfg simEnabled)
        (run (pipelineRecord C T cfg simEnabled) r (rounds n [.push packet, .drain]))
        [.push packet, .drain] := by
      rw [← run_append, ← rounds_succ]
    rw [hr']
    refine ⟨hqueue', hdrained', ?_, ?_⟩
    · rw [hpopped', List.length_append, hpopped, List.length_singleton, Nat.add_assoc]
    · rw [hhanded', List.length_append, hhanded, List.length_singleton, Nat.add_assoc]

end Overrun

/-- A packet comes in for each that is drained; of the 4097 that are popped, one is not handed
on. -/
theorem pipeline_loses_packet :
    let es := .beginUpdate 1 :: rounds 4097 [.push strayPacket, .drain]
    let r := run (pipelineRecord toyCipher toyTokens toyServerConfig false)
      (.start toyCipher toyServerConfig 0, []) es
    (popped r.2).length = 4097 ∧ (handed r.2).length = 4096 := by
  intro es r
  let begun : Pipeline Nat (Sealed Nat) × List (PipelineAction Nat (Sealed Nat)) :=
    pipelineRecord toyCipher toyTokens toyServerConfig false
      (.start toyCipher toyServerConfig 0, []) (.beginUpdate 1)
  have hempty : begun.1.recvQueue.toList = [] := PipelineRecvQueue.toList_empty
  obtain ⟨hqueue, hdrained, hpopped, hhanded⟩ :=
    push_drain_rounds toyCipher toyTokens toyServerConfig false hempty rfl strayPacket
      (Nat.le_refl 4096)
  obtain ⟨hpopped', hhanded'⟩ :=
    push_drain_lost toyCipher toyTokens toyServerConfig false hqueue hdrained strayPacket
  have hr : r = run (pipelineRecord toyCipher toyTokens toyServerConfig false)
      (run (pipelineRecord toyCipher toyTokens toyServerConfig false) begun
        (rounds 4096 [.push strayPacket, .drain])) [.push strayPacket, .drain] := by
    rw [← run_append, ← rounds_succ]
    exact run_cons _ _ _ _
  rw [hr]
  constructor
  · rw [hpopped', List.length_append, hpopped]
    rfl
  · rw [hhanded', hhanded]
    rfl

end Netudp
