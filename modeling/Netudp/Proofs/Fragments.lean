/-
Messages put together from fragments.

A message is split into blocks, and its blocks arrive in any order, more than once, and
mixed with those of other messages.  What a reassembler has to remember of that is small:
which blocks of which message have come.  `FragmentTracker.Gathered` says that one tracker
remembers it, and `Tracks` that the sixteen of them do for every message that is under
way.  A fragment that arrives adds its index to what its tracker holds and touches no
other, so the message comes out when its last index has been added, and its tracker is
free for another one.
-/
import Netudp.Fragment.Fragment
import Netudp.Lib.Blocks
import Netudp.Lib.Run
import Mathlib.Data.Finset.Card
import Mathlib.Data.List.GetD

namespace Netudp

open Lib

/-! ### Fragments -/

/-- A message as its fragments; `payload i` is the data of fragment `i`. -/
structure Pieces where
  count : Nat
  payload : Nat → Bytes
  count_le : count ≤ 255

namespace Pieces

variable {m : Pieces} {p : Nat}

/-- The payloads in index order. -/
def whole (m : Pieces) : Bytes := (List.range m.count).flatMap m.payload

/-- Every payload but the last fills its place. -/
def Tiled (m : Pieces) (p : Nat) : Prop :=
  ∀ i, i + 1 < m.count → (m.payload i).length = p

theorem Tiled.apart (h : m.Tiled p) {i j k : Nat} (hi : i < m.count) (hj : j < m.count)
    (hne : j ≠ i) (hk : k < (m.payload j).length) :
    ¬ (i * p ≤ j * p + k ∧ j * p + k < i * p + (m.payload i).length) := by
  rcases Nat.lt_or_gt_of_ne hne with hlt | hgt
  · have hlen := h j (by omega)
    have hnext : (j + 1) * p ≤ i * p := Nat.mul_le_mul_right p hlt
    rw [Nat.succ_mul] at hnext
    omega
  · have hlen := h i (by omega)
    have hnext : (i + 1) * p ≤ j * p := Nat.mul_le_mul_right p hgt
    rw [Nat.succ_mul] at hnext
    omega

/-- The places before a fragment are as long as the payloads before it. -/
theorem Tiled.sum_eq (h : m.Tiled p) : ∀ n, n < m.count →
    ((List.range n).map fun i => (m.payload i).length).sum = n * p := by
  intro n
  induction n with
  | zero => intro _; simp
  | succ n ih =>
    intro hn
    rw [List.range_succ, List.map_append, List.sum_append, ih (by omega)]
    simp [h n hn, Nat.succ_mul]

end Pieces

/-! ### Splitting -/

/-- A message that can be split into fragments of `p` bytes and put together in a buffer
of `cap`. -/
structure Split (p cap : Nat) where
  message : Bytes
  count : Nat
  count_eq : calcFragmentCount message.length p = some count
  fits : message.length ≤ cap

namespace Split

variable {p cap : Nat} (s : Split p cap)

/-- The bytes of a fragment. -/
def fragment (i : Nat) : Bytes := block p s.message i

/-- What `calc_fragment_count` computes, for a message it accepts. -/
theorem count_spec : 0 < p ∧ 0 < s.count ∧ s.count ≤ maxFragmentCount ∧
    s.message.length ≤ s.count * p ∧ (s.count - 1) * p < s.message.length := by
  have h := s.count_eq
  simp only [calcFragmentCount] at h
  split at h
  · cases h
  rename_i hpos
  split at h
  · cases h
  rename_i hle
  have hp : 0 < p := by omega
  have hcount : (s.message.length + p - 1) / p = s.count := Option.some.inj h
  have hdiv := Nat.div_add_mod (s.message.length + p - 1) p
  have hmod := Nat.mod_lt (s.message.length + p - 1) hp
  rw [hcount] at hdiv
  rw [hcount] at hle
  have hcountPos : 0 < s.count := by
    rw [← hcount]
    exact Nat.div_pos (by omega) hp
  obtain ⟨n, hn⟩ : ∃ n, s.count = n + 1 := ⟨s.count - 1, by omega⟩
  rw [hn] at hdiv ⊢
  rw [Nat.mul_succ] at hdiv
  rw [Nat.add_sub_cancel, Nat.succ_mul, Nat.mul_comm n p]
  omega

theorem count_pos : 0 < s.count := s.count_spec.2.1

theorem count_le : s.count ≤ 255 := s.count_spec.2.2.1

theorem offset_le {i : Nat} (hi : i < s.count) : i * p ≤ s.message.length := by
  obtain ⟨-, -, -, -, hlast⟩ := s.count_spec
  have : i * p ≤ (s.count - 1) * p := Nat.mul_le_mul_right p (by omega)
  omega

theorem fragment_fits {i : Nat} (hi : i < s.count) : i * p + (s.fragment i).length ≤ cap :=
  Nat.le_trans (block_end_le p s.message (s.offset_le hi)) s.fits

/-- The message as its fragments. -/
def pieces : Pieces := ⟨s.count, s.fragment, s.count_le⟩

/-- Every fragment but the last has the payload size. -/
theorem tiled : s.pieces.Tiled p := by
  intro i hi
  have hnext : (i + 1) * p ≤ s.message.length := s.offset_le hi
  rw [Nat.succ_mul] at hnext
  show (block p s.message i).length = p
  rw [length_block]
  omega

theorem whole_pieces : s.pieces.whole = s.message := by
  show (List.range s.count).flatMap (block p s.message) = s.message
  rw [flatMap_block, List.take_of_length_le s.count_spec.2.2.2.1]

end Split

/-! ### One tracker -/

namespace FragmentTracker

variable {p : Nat}

/-- The tracker has the fragments `got` and no others, and has counted them. -/
structure Counted (t : FragmentTracker) (got : Finset Nat) : Prop where
  mask : ∀ i, t.hasFragment i = decide (i ∈ got)
  count : t.receivedCount = got.card
  within : got ⊆ Finset.range t.totalFragments

/-- The tracker has the fragments `got` of the message, each at its place, and no others. -/
structure Gathered (t : FragmentTracker) (m : Pieces) (p : Nat) (got : Finset Nat) : Prop
    extends t.Counted got where
  total : t.totalFragments = m.count
  sizes : ∀ i ∈ got, t.fragmentSizes i = (m.payload i).length
  bytes : ∀ i ∈ got, ∀ k < (m.payload i).length, t.buffer (i * p + k) = (m.payload i).getD k 0

variable {t : FragmentTracker} {m : Pieces} {got : Finset Nat}

/-- `store` of a fragment that was missing. -/
theorem store_of_missing {i : Nat} (h : t.hasFragment i = false) (offset : Nat) (data : Bytes)
    (time : Time) :
    t.store i offset data time = { t with
      buffer := fun k => if offset ≤ k ∧ k < offset + data.length then data.getD (k - offset) 0
        else t.buffer k
      fragmentSizes := fun k => if k = i then data.length else t.fragmentSizes k
      receivedMask := t.receivedMask ||| BitVec.twoPow 256 i
      receivedCount := (t.receivedCount + 1) % 256
      lastRecvTime := time } := by
  have hmask : t.receivedMask.getLsbD i = false := h
  simp [store, markFragment, hasFragment, hmask]

theorem Counted.store (h : t.Counted got) (hle : t.totalFragments ≤ 255) {i : Nat}
    (hi : i < t.totalFragments) (hmissing : i ∉ got) (offset : Nat) (data : Bytes) (time : Time) :
    (t.store i offset data time).Counted (insert i got) := by
  have hcard : (insert i got).card = got.card + 1 := Finset.card_insert_of_notMem hmissing
  have hwithin : insert i got ⊆ Finset.range t.totalFragments :=
    Finset.insert_subset (Finset.mem_range.mpr hi) h.within
  have hsmall : (insert i got).card ≤ 255 := by
    have := Finset.card_le_card hwithin
    rw [Finset.card_range] at this
    exact Nat.le_trans this hle
  have hhas : t.hasFragment i = false := by
    rw [h.mask, decide_eq_false hmissing]
  rw [store_of_missing hhas]
  refine ⟨?_, ?_, hwithin⟩
  · intro j
    have hold : t.receivedMask.getLsbD j = decide (j ∈ got) := h.mask j
    have hlt : i < 256 := by omega
    simp only [hasFragment, BitVec.getLsbD_or, hold, BitVec.getLsbD_twoPow, hlt, decide_true,
      Bool.true_and, Finset.mem_insert]
    by_cases hij : j = i
    · simp [hij]
    · simp [hij, Ne.symm hij]
  · show (t.receivedCount + 1) % 256 = (insert i got).card
    rw [h.count, hcard]
    omega

theorem Counted.isComplete_iff (h : t.Counted got) :
    t.isComplete = true ↔ got = Finset.range t.totalFragments := by
  simp only [isComplete, beq_iff_eq, h.count]
  constructor
  · intro hcard
    exact Finset.eq_of_subset_of_card_le h.within (by rw [Finset.card_range, hcard])
  · intro hall
    rw [hall, Finset.card_range]

theorem Gathered.store (h : t.Gathered m p got) (htiled : m.Tiled p) {i : Nat} (hi : i < m.count)
    (hmissing : i ∉ got) (time : Time) :
    (t.store i (i * p) (m.payload i) time).Gathered m p (insert i got) := by
  have hcounted := h.toCounted.store (h.total.symm ▸ m.count_le) (h.total.symm ▸ hi) hmissing
    (i * p) (m.payload i) time
  have hhas : t.hasFragment i = false := by rw [h.mask, decide_eq_false hmissing]
  have hwithin : ∀ j ∈ got, j < m.count := fun j hj =>
    h.total ▸ Finset.mem_range.mp (h.within hj)
  refine ⟨hcounted, ?_, ?_, ?_⟩
  · rw [store_of_missing hhas]
    exact h.total
  · intro j hj
    rw [store_of_missing hhas]
    by_cases hji : j = i
    · simp [hji]
    · simp [hji, h.sizes j (Finset.mem_of_mem_insert_of_ne hj hji)]
  · intro j hj k hk
    rw [store_of_missing hhas]
    by_cases hji : j = i
    · subst hji
      have hin : j * p ≤ j * p + k ∧ j * p + k < j * p + (m.payload j).length := by omega
      simp only [if_pos hin, Nat.add_sub_cancel_left]
    · have hold := Finset.mem_of_mem_insert_of_ne hj hji
      simp only [if_neg (htiled.apart hi (hwithin j hold) hji hk)]
      exact h.bytes j hold k hk

theorem Gathered.isComplete_iff (h : t.Gathered m p got) :
    t.isComplete = true ↔ got = Finset.range m.count := by
  rw [h.toCounted.isComplete_iff, h.total]

theorem Gathered.front (h : t.Gathered m p (Finset.range m.count)) (htiled : m.Tiled p) :
    ∀ n, n ≤ m.count →
      (List.range ((List.range n).map fun i => (m.payload i).length).sum).map t.buffer =
        (List.range n).flatMap m.payload := by
  intro n
  induction n with
  | zero => intro _; rfl
  | succ n ih =>
    intro hn
    have hplace : (List.range (m.payload n).length).map (fun k => t.buffer (n * p + k)) =
        m.payload n := by
      refine List.ext_getElem (by simp) fun k hk hk' => ?_
      rw [List.getElem_map, List.getElem_range, h.bytes n (Finset.mem_range.mpr hn) k hk',
        List.getD_eq_getElem _ _ hk']
    have hfront := ih (by omega)
    rw [htiled.sum_eq n (by omega)] at hfront
    rw [List.range_succ, List.map_append, List.sum_append, htiled.sum_eq n (by omega),
      List.flatMap_append, ← hfront, List.map_singleton, List.sum_singleton, List.range_add,
      List.map_append, List.map_map, List.flatMap_singleton]
    exact congrArg _ hplace

theorem Gathered.whole (h : t.Gathered m p (Finset.range m.count)) (htiled : m.Tiled p) :
    (List.range t.totalMessageSize).map t.buffer = m.whole := by
  have hsize : t.totalMessageSize =
      ((List.range m.count).map fun i => (m.payload i).length).sum := by
    rw [totalMessageSize, h.total]
    congr 1
    refine List.map_congr_left fun i hi => ?_
    exact h.sizes i (Finset.mem_range.mpr (List.mem_range.mp hi))
  rw [hsize]
  exact h.front htiled m.count (Nat.le_refl _)

/-- The tracker `allocate_tracker` returns. -/
def taken (t : FragmentTracker) (messageId fragmentCount : Nat) (time : Time) : FragmentTracker :=
  { t.reset with
    messageId := messageId
    totalFragments := fragmentCount
    firstRecvTime := time
    active := true }

/-- A tracker just taken has no fragment. -/
theorem taken_counted (t : FragmentTracker) (messageId fragmentCount : Nat) (time : Time) :
    (t.taken messageId fragmentCount time).Counted ∅ where
  mask i := by
    rw [decide_eq_false (Finset.notMem_empty i)]
    exact BitVec.getLsbD_zero
  count := rfl
  within := Finset.empty_subset _

theorem taken_gathered (t : FragmentTracker) (m : Pieces) (p messageId : Nat) (time : Time) :
    (t.taken messageId m.count time).Gathered m p ∅ where
  toCounted := t.taken_counted messageId m.count time
  total := rfl
  sizes _ hi := absurd hi (Finset.notMem_empty _)
  bytes _ hi := absurd hi (Finset.notMem_empty _)

end FragmentTracker

/-! ### Finding and taking a tracker -/

namespace FragmentReassembler

variable {p cap : Nat} {r : FragmentReassembler} {messageId i : Nat}

/-- The reassembler with one tracker replaced. -/
def setTracker (r : FragmentReassembler) (i : Nat) (t : FragmentTracker) : FragmentReassembler :=
  { r with trackers := r.trackers.set i t }

/-- The tracker is at work on the message. -/
def WorksOn (r : FragmentReassembler) (i messageId : Nat) : Prop :=
  (r.trackers.get i).active = true ∧ (r.trackers.get i).messageId = messageId

theorem findTracker_eq_some_iff :
    r.findTracker messageId = some i ↔
      i < 16 ∧ r.WorksOn i messageId ∧ ∀ j < i, ¬ r.WorksOn j messageId := by
  simp only [findTracker, WorksOn, List.find?_range_eq_some, List.mem_range, Bool.and_eq_true,
    beq_iff_eq, Bool.not_eq_true', Bool.and_eq_false_iff, not_and, beq_eq_false_iff_ne]
  constructor
  · rintro ⟨hworks, hlt, hearlier⟩
    refine ⟨hlt, hworks, fun j hj hactive => ?_⟩
    rcases hearlier j hj with hidle | hother
    · rw [hactive] at hidle
      cases hidle
    · exact hother
  · rintro ⟨hlt, hworks, hearlier⟩
    refine ⟨hworks, hlt, fun j hj => ?_⟩
    by_cases hactive : (r.trackers.get j).active = true
    · exact Or.inr (hearlier j hj hactive)
    · exact Or.inl (Bool.eq_false_iff.mpr hactive)

theorem findTracker_eq_none_iff :
    r.findTracker messageId = none ↔ ∀ j < 16, ¬ r.WorksOn j messageId := by
  simp [findTracker, WorksOn]

theorem get_setTracker_self (t : FragmentTracker) : (r.setTracker i t).trackers.get i = t :=
  Table.get_set_self _ _ _

theorem get_setTracker_of_ne {j : Nat} (hi : i < 16) (hj : j < 16) (hne : j ≠ i)
    (t : FragmentTracker) : (r.setTracker i t).trackers.get j = r.trackers.get j := by
  refine Table.get_set_of_mod_ne _ _ ?_
  rwa [Nat.mod_eq_of_lt hi, Nat.mod_eq_of_lt hj]

/-- A tracker that works on a message no earlier one works on is the one found. -/
theorem findTracker_setTracker {t : FragmentTracker} (hi : i < 16)
    (hearlier : ∀ j < i, ¬ r.WorksOn j messageId) (hactive : t.active = true)
    (hid : t.messageId = messageId) : (r.setTracker i t).findTracker messageId = some i := by
  refine findTracker_eq_some_iff.mpr ⟨hi, ?_, fun j hj hworks => hearlier j hj ?_⟩
  · unfold WorksOn
    rw [get_setTracker_self]
    exact ⟨hactive, hid⟩
  · unfold WorksOn at hworks ⊢
    rwa [get_setTracker_of_ne hi (by omega) (by omega)] at hworks

/-- What the trackers work on when tracker `i` is replaced. -/
theorem worksOn_setTracker {j : Nat} {t : FragmentTracker} (hi : i < 16) (hj : j < 16)
    {other : Nat} : (r.setTracker i t).WorksOn j other ↔
      if j = i then t.active = true ∧ t.messageId = other else r.WorksOn j other := by
  unfold WorksOn
  by_cases hji : j = i
  · rw [if_pos hji, hji, get_setTracker_self]
  · rw [if_neg hji, get_setTracker_of_ne hi hj hji]

/-- No two trackers work on one message. -/
def Distinct (r : FragmentReassembler) : Prop :=
  ∀ i < 16, ∀ j < 16, ∀ id, r.WorksOn i id → r.WorksOn j id → i = j

/-- They still do not when tracker `i` is replaced by one for a message on which no other
works. -/
theorem Distinct.setTracker (h : r.Distinct) {t : FragmentTracker} (hi : i < 16)
    (hothers : ∀ j < 16, j ≠ i → ¬ r.WorksOn j t.messageId) : (r.setTracker i t).Distinct := by
  intro j hj k hk other hjw hkw
  rw [worksOn_setTracker hi hj] at hjw
  rw [worksOn_setTracker hi hk] at hkw
  by_cases hji : j = i
  · by_cases hki : k = i
    · rw [hji, hki]
    · rw [if_pos hji] at hjw
      rw [if_neg hki, ← hjw.2] at hkw
      exact absurd hkw (hothers k hk hki)
  · rw [if_neg hji] at hjw
    by_cases hki : k = i
    · rw [if_pos hki] at hkw
      rw [← hkw.2] at hjw
      exact absurd hjw (hothers j hj hji)
    · rw [if_neg hki] at hkw
      exact h j hj k hk other hjw hkw

/-- A fragment of a message a tracker is at work on, which has not got all of them. -/
theorem receive_known {s : Split p cap} {got : Finset Nat} {index : Nat}
    (hfind : r.findTracker messageId = some i)
    (hcap : (r.trackers.get i).bufferCapacity = cap) 
    (h : (r.trackers.get i).Gathered s.pieces p got)
    (hopen : got ≠ Finset.range s.count) (hindex : index < s.count) (time : Time) :
    ∃ t, r.onFragmentReceived messageId index s.count (s.fragment index) p time =
        (if insert index got = Finset.range s.count then some s.message else none,
          r.setTracker i t) ∧
      t.messageId = messageId ∧ t.bufferCapacity = cap ∧
      t.active = decide (insert index got ≠ Finset.range s.count) ∧
      t.Gathered s.pieces p (insert index got) := by
  obtain ⟨hlt, ⟨hactive, hid⟩, -⟩ := findTracker_eq_some_iff.mp hfind
  have hvalid : ¬ (s.count = 0 ∨ s.count ≤ index) := by omega
  have htotal : ¬ (r.trackers.get i).totalFragments ≠ s.count := not_not_intro h.total
  have hroom : ¬ (r.trackers.get i).bufferCapacity < index * p + (s.fragment index).length := by
    rw [hcap]
    exact Nat.not_lt.mpr (s.fragment_fits hindex)
  simp only [onFragmentReceived, if_neg hvalid, hfind, if_neg htotal]
  by_cases hmem : index ∈ got
  · -- A duplicate changes nothing.
    have hsame : insert index got = got := Finset.insert_eq_of_mem hmem
    have hhas : (r.trackers.get i).hasFragment index = true := by
      rw [h.mask, decide_eq_true hmem]
    have hkeep : r.setTracker i (r.trackers.get i) = r := by
      unfold setTracker
      rw [Table.set_get_self]
    refine ⟨r.trackers.get i, ?_, hid, hcap, ?_, ?_⟩
    · rw [if_pos hhas, hsame, if_neg hopen, hkeep]
    · rw [hsame, hactive, decide_eq_true hopen]
    · rw [hsame]
      exact h
  · have hhas : ¬ (r.trackers.get i).hasFragment index = true := by
      rw [h.mask, decide_eq_false hmem]
      exact Bool.false_ne_true
    have hstored : ((r.trackers.get i).store index (index * p) (s.fragment index) time).Gathered
        s.pieces p (insert index got) := h.store s.tiled hindex hmem time
    have hkept := FragmentTracker.store_of_missing (Bool.eq_false_iff.mpr hhas) (index * p)
      (s.fragment index) time
    rw [if_neg hhas, if_neg hroom]
    generalize (r.trackers.get i).store index (index * p) (s.fragment index) time = t
      at hstored hkept
    have htid : t.messageId = messageId := by rw [hkept]; exact hid
    have htcap : t.bufferCapacity = cap := by rw [hkept]; exact hcap
    have htactive : t.active = true := by rw [hkept]; exact hactive
    by_cases hall : insert index got = Finset.range s.count
    · have hfull : t.Gathered s.pieces p (Finset.range s.count) := hall ▸ hstored
      have hmessage := (hfull.whole s.tiled).trans s.whole_pieces
      refine ⟨{ t with active := false }, ?_, htid, htcap, ?_, ?_⟩
      · rw [if_pos (hstored.isComplete_iff.mpr hall), if_pos hall, hmessage]
        rfl
      · rw [decide_eq_false (not_not_intro hall)]
      · exact ⟨⟨hstored.mask, hstored.count, hstored.within⟩, hstored.total, hstored.sizes,
          hstored.bytes⟩
    · refine ⟨t, ?_, htid, htcap, ?_, hstored⟩
      · rw [if_neg fun hc => hall (hstored.isComplete_iff.mp hc), if_neg hall]
        rfl
      · rw [htactive, decide_eq_true hall]

/-- The first fragment of a message takes a free tracker, and is then received by it. -/
theorem receive_new {s : Split p cap} {index : Nat} (hfind : r.findTracker messageId = none)
    (hfree : ∃ j < 16, (r.trackers.get j).active = false) (hindex : index < s.count)
    (time : Time) :
    ∃ i t, i < 16 ∧ (r.trackers.get i).active = false ∧ t.active = true ∧
      t.messageId = messageId ∧ t.bufferCapacity = (r.trackers.get i).bufferCapacity ∧
      t.Gathered s.pieces p ∅ ∧ (r.setTracker i t).findTracker messageId = some i ∧
      r.onFragmentReceived messageId index s.count (s.fragment index) p time =
        (r.setTracker i t).onFragmentReceived messageId index s.count (s.fragment index) p
          time := by
  have hfound : ∃ i, ((List.range 16).find? fun i => !(r.trackers.get i).active) = some i := by
    obtain ⟨j, hj, hidle⟩ := hfree
    refine Option.isSome_iff_exists.mp (List.find?_isSome.mpr ⟨j, List.mem_range.mpr hj, ?_⟩)
    rw [hidle]
    rfl
  obtain ⟨i, hi⟩ := hfound
  obtain ⟨hidle, hlt, -⟩ := List.find?_range_eq_some.mp hi
  rw [List.mem_range] at hlt
  rw [Bool.not_eq_true'] at hidle
  have hnone := findTracker_eq_none_iff.mp hfind
  have hthen : (r.setTracker i ((r.trackers.get i).taken messageId s.count time)).findTracker
      messageId = some i :=
    findTracker_setTracker hlt (fun j hj => hnone j (by omega)) rfl rfl
  refine ⟨i, (r.trackers.get i).taken messageId s.count time, hlt, hidle, rfl, rfl, rfl,
    FragmentTracker.taken_gathered _ s.pieces p messageId time, hthen, ?_⟩
  have hvalid : ¬ (s.count = 0 ∨ s.count ≤ index) := by omega
  simp only [onFragmentReceived, if_neg hvalid, hfind, hthen, allocateTracker, hi]
  rfl

end FragmentReassembler

/-! ### All sixteen of them -/

section Interleaving

variable {p cap : Nat} (messages : Nat → Split p cap)

/-- Each message under way has a tracker of its own, which holds what has come of it. -/
structure Tracks (got : Nat → Finset Nat) (underWay : Finset Nat) (r : FragmentReassembler) :
    Prop where
  capacity : ∀ i < 16, (r.trackers.get i).bufferCapacity = cap
  holds : ∀ i < 16, ∀ id, r.WorksOn i id →
    id ∈ underWay ∧ (r.trackers.get i).Gathered (messages id).pieces p (got id)
  distinct : r.Distinct
  covers : ∀ id ∈ underWay, ∃ i < 16, r.WorksOn i id

namespace Tracks

variable {messages} {got : Nat → Finset Nat} {underWay : Finset Nat} {r : FragmentReassembler}
  {id : Nat}

theorem find (h : Tracks messages got underWay r) (hid : id ∈ underWay) :
    ∃ i, r.findTracker id = some i := by
  obtain ⟨j, hj, hworks⟩ := h.covers id hid
  refine Option.ne_none_iff_exists'.mp fun hnone => ?_
  exact FragmentReassembler.findTracker_eq_none_iff.mp hnone j hj hworks

theorem find_none (h : Tracks messages got underWay r) (hid : id ∉ underWay) :
    r.findTracker id = none :=
  FragmentReassembler.findTracker_eq_none_iff.mpr fun j hj hworks =>
    hid (h.holds j hj id hworks).1

/-- With fewer than sixteen messages under way a tracker is free: otherwise the sixteen
would work on sixteen different ones. -/
theorem free (h : Tracks messages got underWay r) (hcard : underWay.card < 16) :
    ∃ j < 16, (r.trackers.get j).active = false := by
  by_contra hbusy
  have hworks : ∀ j < 16, r.WorksOn j (r.trackers.get j).messageId := by
    intro j hj
    refine ⟨?_, rfl⟩
    by_contra hidle
    exact hbusy ⟨j, hj, Bool.eq_false_iff.mpr hidle⟩
  have hle : (Finset.range 16).card ≤ underWay.card := by
    refine Finset.card_le_card_of_injOn (fun j => (r.trackers.get j).messageId) ?_ ?_
    · intro j hj
      have hlt := Finset.mem_range.mp hj
      exact (h.holds j hlt _ (hworks j hlt)).1
    · intro i hi j hj hsame
      have hi' := Finset.mem_range.mp hi
      have hj' := Finset.mem_range.mp hj
      have hsame' : (r.trackers.get i).messageId = (r.trackers.get j).messageId := hsame
      exact h.distinct i hi' j hj' _ (hworks i hi') (hsame' ▸ hworks j hj')
  rw [Finset.card_range] at hle
  omega

/-- Tracker `i`, which worked on no other message, is replaced by one for the message,
on which none of the others works. -/
theorem replace (h : Tracks messages got underWay r) {i : Nat} {t : FragmentTracker}
    {new : Finset Nat} (hi : i < 16) (hothers : ∀ j < 16, j ≠ i → ¬ r.WorksOn j id)
    (hmine : ∀ other, r.WorksOn i other → other = id) (htid : t.messageId = id)
    (htcap : t.bufferCapacity = cap) (hholds : t.Gathered (messages id).pieces p new) :
    Tracks messages (Function.update got id new)
      (if t.active = true then insert id underWay else underWay.erase id)
      (r.setTracker i t) := by
  have hmem : ∀ other, other ≠ id →
      (other ∈ (if t.active = true then insert id underWay else underWay.erase id) ↔
        other ∈ underWay) := by
    intro other hne
    split
    · simp [hne]
    · simp [hne]
  refine ⟨?_, ?_, ?_, ?_⟩
  · intro j hj
    by_cases hji : j = i
    · rw [hji, FragmentReassembler.get_setTracker_self, htcap]
    · rw [FragmentReassembler.get_setTracker_of_ne hi hj hji]
      exact h.capacity j hj
  · intro j hj other hworks
    rw [FragmentReassembler.worksOn_setTracker hi hj] at hworks
    by_cases hji : j = i
    · rw [if_pos hji, htid] at hworks
      obtain ⟨hactive, rfl⟩ := hworks
      rw [hji, FragmentReassembler.get_setTracker_self, Function.update_self, if_pos hactive]
      exact ⟨Finset.mem_insert_self _ _, hholds⟩
    · rw [if_neg hji] at hworks
      have hne : other ≠ id := by
        rintro rfl
        exact hothers j hj hji hworks
      rw [FragmentReassembler.get_setTracker_of_ne hi hj hji, Function.update_of_ne hne,
        hmem other hne]
      exact h.holds j hj other hworks
  · exact h.distinct.setTracker hi (htid.symm ▸ hothers)
  · intro other hother
    by_cases hne : other = id
    · subst hne
      have hactive : t.active = true := by
        by_contra hidle
        rw [if_neg hidle] at hother
        exact Finset.notMem_erase _ _ hother
      refine ⟨i, hi, (FragmentReassembler.worksOn_setTracker hi hi).mpr ?_⟩
      rw [if_pos rfl]
      exact ⟨hactive, htid⟩
    · obtain ⟨j, hj, hworks⟩ := h.covers other ((hmem other hne).mp hother)
      have hji : j ≠ i := by
        rintro rfl
        exact hne (hmine other hworks)
      refine ⟨j, hj, (FragmentReassembler.worksOn_setTracker hi hj).mpr ?_⟩
      rwa [if_neg hji]

/-- A fragment of a message that is under way, or the first one, while fewer than sixteen
are. -/
theorem receive (h : Tracks messages got underWay r) {index : Nat}
    (hopen : got id ≠ Finset.range (messages id).count)
    (hfirst : id ∉ underWay → got id = ∅ ∧ underWay.card < 16)
    (hindex : index < (messages id).count) (time : Time) :
    ∃ r', r.onFragmentReceived id index (messages id).count ((messages id).fragment index) p time
        = (if insert index (got id) = Finset.range (messages id).count then
            some (messages id).message else none, r') ∧
      Tracks messages (Function.update got id (insert index (got id)))
        (if insert index (got id) ≠ Finset.range (messages id).count then insert id underWay
          else underWay.erase id) r' := by
  -- The message has a tracker, or gets one.
  obtain ⟨r₁, hsame, h₁⟩ : ∃ r₁ : FragmentReassembler,
      r.onFragmentReceived id index (messages id).count ((messages id).fragment index) p time =
        r₁.onFragmentReceived id index (messages id).count ((messages id).fragment index) p time ∧
      Tracks messages got (insert id underWay) r₁ := by
    by_cases hid : id ∈ underWay
    · exact ⟨r, rfl, by rwa [Finset.insert_eq_of_mem hid]⟩
    · obtain ⟨hnone, hcard⟩ := hfirst hid
      obtain ⟨i, t, hi, hidle, hactive, htid, htcap, htholds, -, heq⟩ :=
        FragmentReassembler.receive_new (h.find_none hid) (h.free hcard) hindex time
      have hgot : t.Gathered (messages id).pieces p (got id) := hnone ▸ htholds
      have hnew := h.replace hi (fun j hj _ hworks => hid (h.holds j hj id hworks).1)
        (fun other hother => absurd hother.1 (Bool.eq_false_iff.mp hidle)) htid
        (htcap.trans (h.capacity i hi)) hgot
      rw [Function.update_eq_self, if_pos hactive] at hnew
      exact ⟨r.setTracker i t, heq, hnew⟩
  obtain ⟨i, hfind⟩ := h₁.find (Finset.mem_insert_self _ _)
  obtain ⟨hi, hworks, -⟩ := FragmentReassembler.findTracker_eq_some_iff.mp hfind
  obtain ⟨t, heq, htid, htcap, htactive, htholds⟩ := FragmentReassembler.receive_known hfind
    (h₁.capacity i hi) (h₁.holds i hi id hworks).2 hopen hindex time
  have htracks := h₁.replace hi
    (fun j hj hne hj' => hne (h₁.distinct j hj i hi id hj' hworks))
    (fun other hother => hother.2.symm.trans hworks.2) htid htcap htholds
  rw [htactive, Finset.insert_idem, Finset.erase_insert_eq_erase] at htracks
  simp only [decide_eq_true_eq] at htracks
  exact ⟨r₁.setTracker i t, hsame.trans heq, htracks⟩

end Tracks

/-! ### Any interleaving -/

/-- A fragment arrives. -/
structure Arrival where
  messageId : Nat
  index : Nat
  time : Time

/-- `on_fragment_received` for a fragment of one of the messages. -/
def receiveFragment (r : FragmentReassembler) (a : Arrival) : Option Bytes × FragmentReassembler :=
  r.onFragmentReceived a.messageId a.index (messages a.messageId).count
    ((messages a.messageId).fragment a.index) p a.time

/-- The fragments of the message among the arrivals. -/
def arrived (before : List Arrival) (id : Nat) : Finset Nat :=
  ((before.filter fun a => a.messageId = id).map Arrival.index).toFinset

/-- The messages started and incomplete after the arrivals. -/
def underWay (before : List Arrival) : Finset Nat :=
  (before.map Arrival.messageId).toFinset.filter fun id =>
    arrived before id ≠ Finset.range (messages id).count

/-- The arrival is a fragment of a message that is not complete; if it is the first of its
message, fewer than sixteen others are under way. -/
def Admissible (before : List Arrival) (a : Arrival) : Prop :=
  a.index < (messages a.messageId).count ∧
    arrived before a.messageId ≠ Finset.range (messages a.messageId).count ∧
    (a.messageId ∉ before.map Arrival.messageId → (underWay messages before).card < 16)
deriving Decidable

theorem arrived_append (before : List Arrival) (a : Arrival) :
    arrived (before ++ [a]) =
      Function.update (arrived before) a.messageId
        (insert a.index (arrived before a.messageId)) := by
  funext id
  by_cases hid : id = a.messageId
  · subst hid
    rw [Function.update_self]
    ext i
    simp [arrived]
  · rw [Function.update_of_ne hid]
    simp [arrived, Ne.symm hid]

theorem underWay_append (before : List Arrival) (a : Arrival) :
    underWay messages (before ++ [a]) =
      if insert a.index (arrived before a.messageId) ≠
          Finset.range (messages a.messageId).count then
        insert a.messageId (underWay messages before)
      else (underWay messages before).erase a.messageId := by
  ext id
  rw [underWay, arrived_append]
  by_cases hid : id = a.messageId
  · subst hid
    split
    · rename_i hopen
      simp [hopen]
    · rename_i hall
      simp [not_not.mp hall]
  · split
    · simp [underWay, hid]
    · simp [underWay, hid]

/-- One admissible arrival. -/
theorem receiveFragment_spec {before : List Arrival} {r : FragmentReassembler}
    (h : Tracks messages (arrived before) (underWay messages before) r) {a : Arrival}
    (ha : Admissible messages before a) :
    (receiveFragment messages r a).1 =
        (if arrived (before ++ [a]) a.messageId = Finset.range (messages a.messageId).count then
          some (messages a.messageId).message else none) ∧
      Tracks messages (arrived (before ++ [a])) (underWay messages (before ++ [a]))
        (receiveFragment messages r a).2 := by
  obtain ⟨hindex, hopen, hfirst⟩ := ha
  have hstep : ∃ r', receiveFragment messages r a =
      (if insert a.index (arrived before a.messageId) =
          Finset.range (messages a.messageId).count then
        some (messages a.messageId).message else none, r') ∧
      Tracks messages (arrived (before ++ [a])) (underWay messages (before ++ [a])) r' := by
    rw [arrived_append, underWay_append]
    refine h.receive hopen (fun hout => ?_) hindex a.time
    have hstarted : a.messageId ∉ before.map Arrival.messageId := fun hmem =>
      hout (Finset.mem_filter.mpr ⟨List.mem_toFinset.mpr hmem, hopen⟩)
    have hfilter : before.filter (fun b => b.messageId = a.messageId) = [] := by
      refine List.filter_eq_nil_iff.mpr fun b hb hsame => hstarted ?_
      exact List.mem_map.mpr ⟨b, hb, of_decide_eq_true hsame⟩
    refine ⟨?_, hfirst hstarted⟩
    rw [arrived, hfilter]
    rfl
  obtain ⟨r', heq, htracks⟩ := hstep
  rw [heq, arrived_append, Function.update_self]
  rw [arrived_append] at htracks
  exact ⟨rfl, htracks⟩

theorem tracks_init : Tracks messages (arrived []) (underWay messages []) (.init cap) where
  capacity _ _ := rfl
  holds _ _ _ hworks := absurd hworks.1 Bool.false_ne_true
  distinct _ _ _ _ _ hworks := absurd hworks.1 Bool.false_ne_true
  covers _ hmem := absurd hmem (Finset.notMem_empty _)

/--
**Interleaved messages are put together correctly.**  Whatever the messages are, and in
whatever order, with whatever duplicates and at whatever times their fragments arrive, as
long as a message is started only while fewer than sixteen others are under way and
nothing of it arrives after it is complete: an arrival returns its message, whole, if it
is the last fragment that was missing, and nothing otherwise.
-/
theorem interleaved_messages_reassemble (before : List Arrival) (a : Arrival)
    (h : Along (fun before a => before ++ [a]) (Admissible messages) [] (before ++ [a])) :
    (receiveFragment messages
        (run (fun r a => (receiveFragment messages r a).2) (.init cap) before) a).1 =
      if arrived (before ++ [a]) a.messageId = Finset.range (messages a.messageId).count then
        some (messages a.messageId).message
      else none := by
  obtain ⟨hbefore, ha, -⟩ := along_append.mp h
  have hstep : ∀ (history : List Arrival) (r : FragmentReassembler) (a : Arrival),
      Tracks messages (arrived history) (underWay messages history) r →
      Admissible messages history a →
      Tracks messages (arrived (history ++ [a])) (underWay messages (history ++ [a]))
        (receiveFragment messages r a).2 :=
    fun _ _ _ hr hal => (receiveFragment_spec messages hr hal).2
  have htracks := run_simulates_along
    (fun history r => Tracks messages (arrived history) (underWay messages history) r) hstep
    (tracks_init messages) hbefore
  rw [run_history, List.nil_append] at htracks ha
  exact (receiveFragment_spec messages htracks ha).1

end Interleaving

/-- Two messages, in fragments of two bytes. -/
def twoMessages : Nat → Split 2 16
  | 0 => ⟨[1, 2, 3, 4, 5], 3, by decide, by decide⟩
  | _ => ⟨[6, 7, 8], 2, by decide, by decide⟩

/-- Their fragments, out of order and mixed, one of them twice. -/
def mixedArrivals : List Arrival :=
  [⟨0, 2, 0⟩, ⟨1, 1, 0⟩, ⟨0, 0, 1⟩, ⟨0, 2, 1⟩, ⟨1, 0, 2⟩]

/-- The first message comes out with the last of its fragments. -/
theorem mixed_messages_reassemble :
    (receiveFragment twoMessages (run (fun r a => (receiveFragment twoMessages r a).2)
      (.init 16) mixedArrivals) ⟨0, 1, 3⟩).1 = some [1, 2, 3, 4, 5] :=
  (interleaved_messages_reassemble twoMessages mixedArrivals ⟨0, 1, 3⟩ (by decide)).trans
    (by decide)

end Netudp
