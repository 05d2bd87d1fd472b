/-
How the active list is shared out.

With pacing an update visits one slice of the active list, and the next update the next
slice; with worker threads each of them visits one slice, all in the same update.  Either
way the slices are cut so that each begins where the one before it ends, and together they
are the whole list.
-/
import Netudp.Lib.Slices
import Netudp.Proofs.Refills

namespace Netudp

open Lib

variable {Key Ct : Type} {C : Primitives Key Ct} {T : TokenOps Key} {cfg : ServerConfig}

/-! ### Pacing -/

/-- Where a slice begins: the first slices have one position more than the others. -/
def pacingCut (pacingSlices activeCount turn : Nat) : Nat :=
  turn * (activeCount / pacingSlices) + min turn (activeCount % pacingSlices)

theorem pacingCut_succ (pacingSlices activeCount turn : Nat) :
    pacingCut pacingSlices activeCount (turn + 1) = pacingCut pacingSlices activeCount turn +
      (activeCount / pacingSlices + if turn < activeCount % pacingSlices then 1 else 0) := by
  simp only [pacingCut, Nat.succ_mul]
  generalize activeCount / pacingSlices = perSlice
  split
  · omega
  · omega

theorem pacingCut_last {pacingSlices : Nat} (h : 0 < pacingSlices) (activeCount : Nat) :
    pacingCut pacingSlices activeCount pacingSlices = activeCount := by
  have hrest : activeCount % pacingSlices ≤ pacingSlices := Nat.le_of_lt (Nat.mod_lt _ h)
  rw [pacingCut, Nat.min_eq_right hrest, Nat.div_add_mod]

theorem pacingSlice_eq {pacingSlices activeCount : Nat} (hslices : 1 < pacingSlices)
    (hactive : pacingSlices < activeCount) (currentSlice : Nat) :
    let turn := currentSlice % pacingSlices
    Server.pacingSlice pacingSlices activeCount currentSlice =
      (pacingCut pacingSlices activeCount turn,
        pacingCut pacingSlices activeCount (turn + 1) -
          pacingCut pacingSlices activeCount turn) := by
  intro turn
  rw [Server.pacingSlice, if_pos ⟨hslices, hactive⟩, pacingCut_succ, Nat.add_sub_cancel_left]
  have hmin : min turn (activeCount % pacingSlices) =
      if turn < activeCount % pacingSlices then turn else activeCount % pacingSlices := by
    split
    · omega
    · omega
  rw [pacingCut, hmin]

/-- The slots an update goes through, each with its position in the active list. -/
def Server.visited (cfg : ServerConfig) (s : Server Key) : List (Nat × Nat) :=
  let (start, count) := pacingSlice cfg.pacingSlices s.activeSlots.length s.pacingCurrentSlice
  (s.activeSlots.zipIdx.drop start).take count

theorem visited_map_fst (cfg : ServerConfig) (s : Server Key) :
    (s.visited cfg).map Prod.fst = s.visitedSlots cfg := by
  simp only [Server.visited, Server.visitedSlots, List.map_take, List.map_drop,
    List.zipIdx_map_fst]

/-- What an update visits is what it processes. -/
theorem finishUpdate_eq (C : Primitives Key Ct) (cfg : ServerConfig)
    (s : Server Key) :
    let visited := ((s.checked C).visited cfg).map Prod.fst
    s.finishUpdate C cfg =
      ({ (Server.processSlots C cfg (s.checked C) visited).1 with
          pacingCurrentSlice := Server.nextSlice cfg.pacingSlices
            (s.checked C).activeSlots.length (s.checked C).pacingCurrentSlice },
        (Server.processSlots C cfg (s.checked C) visited).2) := by
  intro visited
  simp only [visited, visited_map_fst]
  rfl

/-- What an update visits when it is the turn of a slice. -/
def turnSlice (pacingSlices : Nat) (activeSlots : List Nat) (turn : Nat) : List (Nat × Nat) :=
  slice activeSlots.zipIdx (pacingCut pacingSlices activeSlots.length turn)
    (pacingCut pacingSlices activeSlots.length (turn + 1))

theorem visited_eq {s : Server Key} (hslices : 1 < cfg.pacingSlices)
    (hactive : cfg.pacingSlices < s.activeSlots.length) :
    s.visited cfg = turnSlice cfg.pacingSlices s.activeSlots
      (s.pacingCurrentSlice % cfg.pacingSlices) := by
  simp only [Server.visited, pacingSlice_eq hslices hactive]
  rfl

/-- As many turns as there are slices are the whole list, whichever comes first. -/
theorem turns_perm {pacingSlices : Nat} (h : 0 < pacingSlices) (activeSlots : List Nat)
    (first : Nat) :
    ((List.range pacingSlices).flatMap fun j =>
      turnSlice pacingSlices activeSlots ((first + j) % pacingSlices)).Perm
      activeSlots.zipIdx := by
  have hwhole : (List.range pacingSlices).flatMap (turnSlice pacingSlices activeSlots) =
      activeSlots.zipIdx := by
    have hslices := flatMap_slices activeSlots.zipIdx
      (pacingCut pacingSlices activeSlots.length) (by simp [pacingCut]) pacingSlices
      fun turn _ => by rw [pacingCut_succ]; exact Nat.le_add_right _ _
    rw [pacingCut_last h, List.take_of_length_le (by rw [List.length_zipIdx])] at hslices
    exact hslices
  have hturns := (perm_turns pacingSlices first).flatMap_right
    (turnSlice pacingSlices activeSlots)
  rwa [List.flatMap_map, hwhole] at hturns

/-! ### Runs of updates -/

/-- A server with the number of its updates and what they have visited. -/
structure PacedRun (Key : Type) where
  server : Server Key
  updates : Nat := 0
  visits : List (Nat × Nat) := []

def pacedStep (C : Primitives Key Ct) (T : TokenOps Key) (cfg : ServerConfig) (r : PacedRun Key)
    (ev : ServerEvent Ct) : PacedRun Key :=
  let server := (serverStep C T cfg r.server ev).1
  match ev with
  | .finishUpdate =>
    { server := server
      updates := r.updates + 1
      visits := r.visits ++ (r.server.checked C).visited cfg }
  | _ => { r with server := server }

/-- The event leaves the active list as it is. -/
def KeepsActive (C : Primitives Key Ct) (T : TokenOps Key) (cfg : ServerConfig)
    (r : PacedRun Key) (ev : ServerEvent Ct) : Prop :=
  (serverStep C T cfg r.server ev).1.activeSlots = r.server.activeSlots
deriving Decidable

theorem processSlots_activeSlots (slots : List Nat) (s : Server Key) :
    (Server.processSlots C cfg s slots).1.activeSlots = s.activeSlots :=
  processSlots_rule (P := fun t => t.activeSlots = s.activeSlots) (fun _ _ ht => ht) slots s rfl

/-- The turns so far, from the server the run began with. -/
structure Paced (cfg : ServerConfig) (start : Server Key) (r : PacedRun Key) : Prop where
  active : r.server.activeSlots = start.activeSlots
  turn : r.server.pacingCurrentSlice % cfg.pacingSlices =
    (start.pacingCurrentSlice + r.updates) % cfg.pacingSlices
  visits : r.visits = (List.range r.updates).flatMap fun j =>
    turnSlice cfg.pacingSlices start.activeSlots
      ((start.pacingCurrentSlice + j) % cfg.pacingSlices)

/-- An event that is no turn. -/
theorem Paced.same {start : Server Key} {r : PacedRun Key} (h : Paced cfg start r)
    {server : Server Key} (hactive : server.activeSlots = r.server.activeSlots)
    (hslice : server.pacingCurrentSlice = r.server.pacingCurrentSlice) :
    Paced cfg start { r with server := server } :=
  ⟨hactive.trans h.active, by rw [← h.turn]; exact congrArg (· % _) hslice, h.visits⟩

theorem paced_step {start : Server Key} (hslices : 1 < cfg.pacingSlices)
    (hactive : cfg.pacingSlices < start.activeSlots.length) {r : PacedRun Key}
    {ev : ServerEvent Ct} (h : Paced cfg start r) (hkeeps : KeepsActive C T cfg r ev) :
    Paced cfg start (pacedStep C T cfg r ev) := by
  cases ev with
  | finishUpdate =>
    -- The list did not change, so the timeout check released nothing.
    have hchecked : (r.server.checked C).activeSlots = start.activeSlots := by
      have hlist := hkeeps.trans h.active
      simp only [serverStep, finishUpdate_eq, processSlots_activeSlots] at hlist
      exact hlist
    have hslice : (r.server.checked C).pacingCurrentSlice = r.server.pacingCurrentSlice :=
      (standing_checkTimeouts C _ 0 r.server).pacingCurrentSlice
    refine ⟨hkeeps.trans h.active, ?_, ?_⟩
    · simp only [pacedStep, serverStep, finishUpdate_eq]
      rw [hchecked, hslice, Server.nextSlice, if_pos ⟨hslices, hactive⟩, h.turn, Nat.mod_mod,
        Nat.mod_add_mod, Nat.add_assoc]
    · show r.visits ++ (r.server.checked C).visited cfg = _
      rw [visited_eq hslices (by rw [hchecked]; exact hactive), hchecked, hslice, h.turn,
        h.visits]
      simp [pacedStep, List.range_succ]
  | beginUpdate time => exact h.same hkeeps rfl
  | dispatch from_ packet =>
    exact h.same hkeeps (standing_dispatchPacket r.server from_ packet).pacingCurrentSlice
  | send slot channel data flags =>
    exact h.same hkeeps (standing_onConnection r.server slot _).pacingCurrentSlice
  | sendState slot channel entityId data =>
    exact h.same hkeeps (standing_onConnection r.server slot _).pacingCurrentSlice
  | flush slot => exact h.same hkeeps (standing_onConnection r.server slot _).pacingCurrentSlice

/-- `pacing_slices` updates visit the active list once. -/
theorem paced_visits (C : Primitives Key Ct) (T : TokenOps Key) {s : Server Key}
    {es : List (ServerEvent Ct)} (hslices : 1 < cfg.pacingSlices)
    (hactive : cfg.pacingSlices < s.activeSlots.length)
    (hkeeps : Along (pacedStep C T cfg) (KeepsActive C T cfg) { server := s } es)
    (hupdates : (run (pacedStep C T cfg) { server := s } es).updates = cfg.pacingSlices) :
    (run (pacedStep C T cfg) { server := s } es).visits.Perm s.activeSlots.zipIdx := by
  have hpaced := run_invariant (Paced cfg s) (fun _ _ => paced_step hslices hactive)
    (s := { server := s }) ⟨rfl, rfl, rfl⟩ hkeeps
  rw [hpaced.visits, hupdates]
  exact turns_perm (by omega) s.activeSlots s.pacingCurrentSlice

/-! ### Worker threads -/

/-- The positions a worker goes through. -/
def workerPositions (numWorkers activeCount workerId : Nat) : List Nat :=
  let (start, stop) := Server.workerSlice numWorkers activeCount workerId
  List.range' start (stop - start)

theorem activeCount_le_slices {numWorkers : Nat} (h : 1 ≤ numWorkers) (activeCount : Nat) :
    activeCount ≤ numWorkers * ((activeCount + numWorkers - 1) / numWorkers) := by
  have hdiv := Nat.div_add_mod (activeCount + numWorkers - 1) numWorkers
  have hmod := Nat.mod_lt (activeCount + numWorkers - 1) h
  omega

/-- Where the slice of a worker begins, or the end of the list if that comes first. -/
def workerCut (numWorkers activeCount workerId : Nat) : Nat :=
  min (workerId * ((activeCount + numWorkers - 1) / numWorkers)) activeCount

theorem workerPositions_eq (numWorkers activeCount workerId : Nat) :
    workerPositions numWorkers activeCount workerId =
      slice (List.range activeCount) (workerCut numWorkers activeCount workerId)
        (workerCut numWorkers activeCount (workerId + 1)) := by
  simp only [workerPositions, Server.workerSlice, workerCut, Nat.succ_mul]
  generalize (activeCount + numWorkers - 1) / numWorkers = share
  rw [slice_range (Nat.min_le_right _ _)]
  by_cases hlate : workerId * share ≤ activeCount
  · rw [Nat.min_eq_left hlate]
    congr 1
    split
    · omega
    · omega
  · -- The workers before this one have gone through the whole list.
    have hmine : (if activeCount < workerId * share + share then activeCount
        else workerId * share + share) - workerId * share = 0 := by
      split
      · omega
      · omega
    rw [hmine, Nat.min_eq_right (by omega), Nat.min_eq_right (by omega), Nat.sub_self]
    rfl

/-- The workers, one after another, go through the list from its beginning to its end. -/
theorem flatMap_workerPositions {numWorkers : Nat} (h : 1 ≤ numWorkers) (activeCount : Nat) :
    (List.range numWorkers).flatMap (workerPositions numWorkers activeCount) =
      List.range activeCount := by
  have hslices := flatMap_slices (List.range activeCount) (workerCut numWorkers activeCount)
    (by simp [workerCut]) numWorkers fun workerId _ => by
      simp only [workerCut, Nat.succ_mul]
      generalize (activeCount + numWorkers - 1) / numWorkers = share
      omega
  have hlast : workerCut numWorkers activeCount numWorkers = activeCount :=
    Nat.min_eq_right (activeCount_le_slices h activeCount)
  rw [funext (workerPositions_eq numWorkers activeCount), hslices, hlast,
    List.take_of_length_le (by rw [List.length_range])]

theorem workerPositions_partition {numWorkers : Nat} (h : 1 ≤ numWorkers) (activeCount : Nat) :
    (∀ i < numWorkers, ∀ j < numWorkers, i ≠ j →
      (workerPositions numWorkers activeCount i).Disjoint
        (workerPositions numWorkers activeCount j)) ∧
    ∀ p, p < activeCount ↔
      ∃ workerId < numWorkers, p ∈ workerPositions numWorkers activeCount workerId := by
  have hwhole := flatMap_workerPositions h activeCount
  constructor
  · have hnodup : ((List.range numWorkers).flatMap
        (workerPositions numWorkers activeCount)).Nodup := by
      rw [hwhole]
      exact List.nodup_range
    have hsymm : Std.Symm (Function.onFun List.Disjoint (workerPositions numWorkers activeCount)) :=
      ⟨fun _ _ hdisjoint => List.Disjoint.symm hdisjoint⟩
    intro i hi j hj hne
    exact (List.nodup_flatMap.mp hnodup).2.forall (List.mem_range.mpr hi) (List.mem_range.mpr hj)
      hne
  · intro p
    rw [← List.mem_range, ← hwhole]
    simp

/-- **Each position is visited once.**  With pacing, `pacing_slices` updates in a row that
find the active list as it was visit each of its positions once, whichever slice was next
and whatever happens between them; the slices of the worker threads are disjoint, and
together they are all positions. -/
theorem active_list_shared_out (C : Primitives Key Ct) (T : TokenOps Key) (cfg : ServerConfig) :
    (∀ (s : Server Key) (es : List (ServerEvent Ct)), 1 < cfg.pacingSlices →
      cfg.pacingSlices < s.activeSlots.length →
      Along (pacedStep C T cfg) (KeepsActive C T cfg) { server := s } es →
      (run (pacedStep C T cfg) { server := s } es).updates = cfg.pacingSlices →
      let visits := (run (pacedStep C T cfg) { server := s } es).visits
      (visits.map Prod.snd).Perm (List.range s.activeSlots.length) ∧
        ∀ visit ∈ visits, s.activeSlots[visit.2]? = some visit.1) ∧
    ∀ activeCount numWorkers : Nat, 1 ≤ numWorkers →
      (∀ i < numWorkers, ∀ j < numWorkers, i ≠ j →
        (workerPositions numWorkers activeCount i).Disjoint
          (workerPositions numWorkers activeCount j)) ∧
      ∀ p, p < activeCount ↔
        ∃ workerId < numWorkers, p ∈ workerPositions numWorkers activeCount workerId := by
  refine ⟨?_, fun activeCount _ hworkers => workerPositions_partition hworkers activeCount⟩
  intro s es hslices hactive hkeeps hupdates visits
  have hvisits : visits.Perm s.activeSlots.zipIdx :=
    paced_visits C T hslices hactive hkeeps hupdates
  constructor
  · have hpositions := hvisits.map Prod.snd
    rwa [List.zipIdx_map_snd, ← List.range_eq_range'] at hpositions
  · intro visit hvisit
    exact List.mem_zipIdx_iff_getElem?.mp (hvisits.mem_iff.mp hvisit)

/-- Two slices. -/
def pacedConfig : ServerConfig := { toyServerConfig with maxClients := 3, pacingSlices := 2 }

/-- Three active slots, the second slice of them next. -/
def pacedServer : Server Nat :=
  { Server.start toyCipher pacedConfig 0 with
    activeSlots := [2, 0, 1], pacingCurrentSlice := 1 }

/-- Two updates visit the third position, and then the first two; and two workers have two
positions and one. -/
theorem three_slots_shared_out :
    ((run (pacedStep toyCipher toyTokens pacedConfig) { server := pacedServer }
        (tickAt (1 / 64) [] ++ tickAt (2 / 64) [])).visits.map Prod.snd).Perm (List.range 3) ∧
      (workerPositions 2 3 0).Disjoint (workerPositions 2 3 1) := by
  have hshared := active_list_shared_out toyCipher toyTokens pacedConfig
  refine ⟨?_, (hshared.2 3 2 (by decide)).1 0 (by decide) 1 (by decide) (by decide)⟩
  exact (hshared.1 pacedServer (tickAt (1 / 64) [] ++ tickAt (2 / 64) []) (by decide) (by decide)
    (by decide +kernel) (by decide +kernel)).1

end Netudp
