/-
Fragments of one message in any order.

A fragment is written at its index times the payload size, whatever its length, and the
message is as long as its fragments together.  When every fragment but the last has the
payload size, the places tile the message and no fragment touches another's; the buffer
then holds the payloads in index order, whichever came first.
-/
import Netudp.Proofs.FragmentRuns

namespace Netudp

open Lib FragmentReassembler

variable {m : Pieces} {p cap id : Nat}

variable {t : FragmentTracker} {got : Finset Nat}

/-! ### All fragments, in any order -/

/-- The next fragment of the message finds a tracker that has the others. -/
def Awaits (m : Pieces) (p cap id : Nat) (r : FragmentReassembler) (got : Finset Nat) : Prop :=
  ∀ time, ∃ i r', TakesUp r id m.count time i r' ∧ (r'.trackers.get i).Gathered m p got ∧
    (r'.trackers.get i).bufferCapacity = cap

theorem FragmentReassembler.TakesUp.find {r r' : FragmentReassembler} {count i : Nat} {time : Time}
    (h : TakesUp r id count time i r') : r'.findTracker id = some i := by
  cases h with
  | known hfind => exact hfind
  | fresh hnew hfree =>
    exact findTracker_setTracker (firstFree_some hfree).1
      (fun j hj => findTracker_eq_none_iff.mp hnew j (by have := (firstFree_some hfree).1; omega))
      rfl rfl

/-- A fragment that was missing completes the message, or leaves it waiting for the rest. -/
theorem Awaits.receive {r : FragmentReassembler} (h : Awaits m p cap id r got)
    (htiled : m.Tiled p) {index : Nat} (hindex : index < m.count)
    (hfits : index * p + (m.payload index).length ≤ cap) (hmissing : index ∉ got) (time : Time) :
    ∃ r', r.onFragmentReceived id index m.count (m.payload index) p time =
        (if insert index got = Finset.range m.count then some m.whole else none, r') ∧
      (insert index got ≠ Finset.range m.count → Awaits m p cap id r' (insert index got)) := by
  obtain ⟨i, r', hup, hgathered, hcap⟩ := h time
  obtain ⟨hi, hworks⟩ := hup.worksOn
  have hearlier := (findTracker_eq_some_iff.mp hup.find).2.2
  obtain ⟨hactive, hid⟩ := hworks
  have hhas : (r'.trackers.get i).hasFragment index = false := by
    rw [hgathered.mask, decide_eq_false hmissing]
  have hrefuses : ¬ (r'.trackers.get i).Refuses index m.count (m.payload index).length p := by
    rintro (htotal | htwice | hroom)
    · exact htotal hgathered.total
    · rw [hhas] at htwice
      exact Bool.false_ne_true htwice
    · rw [hcap] at hroom
      omega
  rw [onFragmentReceived_takesUp hup hindex, if_neg hrefuses]
  have hstored := hgathered.store htiled hindex hmissing time
  have hle : (r'.trackers.get i).totalFragments ≤ 255 := hgathered.total ▸ m.count_le
  obtain ⟨hid', htotal', hcap', hcounted', hactive', hreleased⟩ :=
    stored_spec hgathered.toCounted hle (hgathered.total ▸ hindex) hhas p (m.payload index) time
  rw [hgathered.total] at hreleased hactive'
  refine ⟨_, Prod.ext ?_ rfl, ?_⟩
  · by_cases hall : insert index got = Finset.range m.count
    · rw [if_pos hall]
      simp only [released, if_pos (hstored.isComplete_iff.mpr hall), (hall ▸ hstored).whole htiled]
    · rw [if_neg hall]
      exact Option.not_isSome_iff_eq_none.mp fun hsome => hall (hreleased.mp hsome)
  · intro hopen time'
    refine ⟨i, _, .known (findTracker_setTracker hi hearlier ?_ (hid'.trans hid)), ?_, ?_⟩
    · rw [hactive', hactive, decide_eq_true hopen]
      rfl
    · rw [get_setTracker_self]
      exact ⟨hcounted', htotal'.trans hgathered.total, hstored.sizes, hstored.bytes⟩
    · rw [get_setTracker_self]
      exact hcap'.trans hcap

/-- The fragments of the message arrive in this order, each at its time. -/
def inOrder (id : Nat) (order : List (Nat × Time)) : List Arrival :=
  order.map fun a => ⟨id, a.1, a.2⟩

/-- The fragments still missing complete the message, whichever comes first. -/
theorem Awaits.run (htiled : m.Tiled p)
    (hfits : ∀ i < m.count, i * p + (m.payload i).length ≤ cap) :
    ∀ (order : List (Nat × Time)) {s : Reassembly} {got : Finset Nat},
      Awaits m p cap id s.reassembler got → (order.map Prod.fst).Nodup →
      (∀ i ∈ order.map Prod.fst, i ∉ got) →
      got ∪ (order.map Prod.fst).toFinset = Finset.range m.count → order ≠ [] →
      (run (reassemblyStep p fun _ => m) s (inOrder id order)).returned =
        s.returned ++ [(id, m.whole)] := by
  intro order
  induction order with
  | nil => intro s got _ _ _ _ hne; exact absurd rfl hne
  | cons a rest ih =>
    intro s got h hnodup hnew hall _
    obtain ⟨index, time⟩ := a
    simp only [List.map_cons, List.nodup_cons] at hnodup
    have hindex : index < m.count := by
      rw [← Finset.mem_range, ← hall]
      simp
    have hmissing : index ∉ got := hnew index (by simp)
    obtain ⟨r', heq, hawaits⟩ := h.receive htiled hindex (hfits index hindex) hmissing time
    have hrest : insert index got ∪ (rest.map Prod.fst).toFinset = Finset.range m.count := by
      rw [← hall]
      ext k
      simp
    have hstep : reassemblyStep p (fun _ => m) s ⟨id, index, time⟩ = _ := reassemblyStep_eq heq
    show (Lib.run (reassemblyStep p fun _ => m)
      (reassemblyStep p (fun _ => m) s ⟨id, index, time⟩) (inOrder id rest)).returned = _
    rw [hstep]
    cases rest with
    | nil =>
      have hdone : insert index got = Finset.range m.count := by simpa using hrest
      simp [inOrder, hdone]
    | cons b rest =>
      -- Another fragment is missing, so this one did not complete the message.
      have hopen : insert index got ≠ Finset.range m.count := by
        intro hdone
        have hb : b.1 ∈ insert index got := by
          rw [hdone, ← hrest]
          simp
        rcases Finset.mem_insert.mp hb with hsame | hold
        · exact hnodup.1 (by simp [hsame])
        · exact hnew b.1 (by simp) hold
      have hnext := ih (s := ⟨r', s.returned⟩) (hawaits hopen) hnodup.2 ?_ hrest (by simp)
      · simpa [hopen] using hnext
      · intro i hi hmem
        rcases Finset.mem_insert.mp hmem with hsame | hold
        · exact hnodup.1 (hsame ▸ hi)
        · exact hnew i (List.mem_cons_of_mem _ hi) hold

/--
**Fragments are combined independently of the order they arrive in**, when every payload but
the last fills its place: from any state with a tracker to spare, whichever order the
fragments of a message arrive in, the message returned is the concatenation of its payloads
in index order.
-/
theorem fragments_combine_in_any_order (m : Pieces) (p cap id : Nat) (r : FragmentReassembler)
    (hcap : ∀ i < 16, (r.trackers.get i).bufferCapacity = cap) (hnew : r.findTracker id = none)
    (hfree : r.firstFree.isSome = true) (hpos : 0 < m.count)
    (hfits : ∀ i < m.count, i * p + (m.payload i).length ≤ cap) (htiled : m.Tiled p)
    (order : List (Nat × Time)) (horder : (order.map Prod.fst).Perm (List.range m.count)) :
    (run (reassemblyStep p fun _ => m) ⟨r, []⟩ (inOrder id order)).returned = [(id, m.whole)] := by
  have hawaits : Awaits m p cap id r ∅ := by
    intro time
    obtain ⟨i, hi⟩ := Option.isSome_iff_exists.mp hfree
    refine ⟨i, _, .fresh hnew hi, ?_, ?_⟩
    · rw [get_setTracker_self]
      exact FragmentTracker.taken_gathered _ m p id time
    · rw [get_setTracker_self]
      exact hcap i (firstFree_some hi).1
  have hne : order ≠ [] := by
    rintro rfl
    have := horder.length_eq
    simp at this
    omega
  refine hawaits.run htiled hfits order (horder.nodup_iff.mpr List.nodup_range) (by simp) ?_ hne
  rw [Finset.empty_union]
  ext i
  rw [List.mem_toFinset, horder.mem_iff, List.mem_range, Finset.mem_range]

/-- Three payloads of two, two and three bytes, the last of them first. -/
theorem fragments_combine_last_first :
    (run (reassemblyStep 2 fun _ => ⟨3, fun i => if i = 2 then [5, 6, 7] else
        [UInt8.ofNat (2 * i + 1), UInt8.ofNat (2 * i + 2)], by decide⟩) ⟨.init 16, []⟩
      (inOrder 4 [(2, 0), (0, 1), (1, 1)])).returned = [(4, [1, 2, 3, 4, 5, 6, 7])] :=
  fragments_combine_in_any_order ⟨3, fun i => if i = 2 then [5, 6, 7] else
      [UInt8.ofNat (2 * i + 1), UInt8.ofNat (2 * i + 2)], by decide⟩ 2 16 4 (.init 16)
    (fun _ _ => rfl) (by decide) (by decide) (by decide) (by decide)
    (fun i hi => by
      have : i ≠ 2 := fun hc => by simp [hc] at hi
      simp [this])
    [(2, 0), (0, 1), (1, 1)] (by decide)

/-- A first payload too long for its place. -/
def overlapping : Pieces := { twoPieces 0 with payload := fun i => if i = 0 then [1, 2] else [3] }

/-- What comes out depends on which fragment came last, and is never the message. -/
theorem overlapping_fragments_depend_on_order :
    overlapping.whole = [1, 2, 3] ∧
    (run (reassemblyStep 1 fun _ => overlapping) ⟨.init 16, []⟩
      (inOrder 4 [(0, 0), (1, 0)])).returned = [(4, [1, 3, 0])] ∧
    (run (reassemblyStep 1 fun _ => overlapping) ⟨.init 16, []⟩
      (inOrder 4 [(1, 0), (0, 0)])).returned = [(4, [1, 2, 0])] := by
  decide

end Netudp
