/-
Fragments that nobody promised to be well behaved.

`Fragments` is about messages split into blocks whose fragments stop coming once the
message is complete.  Here the fragments are of any length, come at any time and any
number of times, and some are refused.  A call of `on_fragment_received` first decides on
a tracker, the one at work on the message or a free one it takes; the tracker then refuses
the fragment or stores it.  Everything below is read off these two steps.

A refused fragment leaves no trace unless a tracker was taken for it.  A message that comes
out again has to arrive again with every one of its fragments.
-/
import Netudp.Proofs.Fragments

namespace Netudp

open Lib

/-! ### What a call does -/

/-- The tracker does not take the fragment: it expects another number of them, has this one,
or has no room for it. -/
def FragmentTracker.Refuses (t : FragmentTracker) (index count len p : Nat) : Prop :=
  t.totalFragments ≠ count ∨ t.hasFragment index = true ∨ t.bufferCapacity < index * p + len
deriving Decidable

namespace FragmentReassembler

variable {r r' : FragmentReassembler} {id index count p i : Nat} {data : Bytes} {time : Time}

/-- The tracker `allocate_tracker` takes. -/
def firstFree (r : FragmentReassembler) : Option Nat :=
  (List.range 16).find? fun i => !(r.trackers.get i).active

theorem firstFree_some (h : r.firstFree = some i) : i < 16 ∧ (r.trackers.get i).active = false := by
  obtain ⟨hidle, hlt, -⟩ := List.find?_range_eq_some.mp h
  exact ⟨List.mem_range.mp hlt, by simpa using hidle⟩

/-- The call works in tracker `i` of `r'`: the one at work on the message, or a free one taken
for it. -/
inductive TakesUp (r : FragmentReassembler) (id count : Nat) (time : Time) :
    Nat → FragmentReassembler → Prop
  | known {i : Nat} (h : r.findTracker id = some i) : TakesUp r id count time i r
  | fresh {i : Nat} (hnew : r.findTracker id = none) (hfree : r.firstFree = some i) :
      TakesUp r id count time i (r.setTracker i ((r.trackers.get i).taken id count time))

theorem TakesUp.worksOn (h : TakesUp r id count time i r') : i < 16 ∧ r'.WorksOn i id := by
  cases h with
  | known hfind =>
    obtain ⟨hlt, hworks, -⟩ := findTracker_eq_some_iff.mp hfind
    exact ⟨hlt, hworks⟩
  | fresh _ hfree =>
    refine ⟨(firstFree_some hfree).1, ?_⟩
    simp [WorksOn, get_setTracker_self, FragmentTracker.taken]

/-- A call finds a tracker, or all of them are at work on other messages. -/
theorem takesUp_or_full (r : FragmentReassembler) (id count : Nat) (time : Time) :
    (∃ i r', TakesUp r id count time i r') ∨ r.findTracker id = none ∧ r.firstFree = none := by
  cases hfind : r.findTracker id with
  | some i => exact Or.inl ⟨i, r, .known hfind⟩
  | none =>
    cases hfree : r.firstFree with
    | some i => exact Or.inl ⟨i, _, .fresh hfind hfree⟩
    | none => exact Or.inr ⟨rfl, rfl⟩

/-- The tracker with the fragment, which is free again if that was the last one missing. -/
def stored (t : FragmentTracker) (index p : Nat) (data : Bytes) (time : Time) : FragmentTracker :=
  let t := t.store index (index * p) data time
  { t with active := t.active && !t.isComplete }

/-- What comes out when the fragment is stored. -/
def released (t : FragmentTracker) (index p : Nat) (data : Bytes) (time : Time) : Option Bytes :=
  let t := t.store index (index * p) data time
  if t.isComplete then some ((List.range t.totalMessageSize).map t.buffer) else none

theorem onFragmentReceived_takesUp (h : TakesUp r id count time i r') (hindex : index < count)
    (p : Nat) (data : Bytes) :
    r.onFragmentReceived id index count data p time =
      if (r'.trackers.get i).Refuses index count data.length p then (none, r')
      else (released (r'.trackers.get i) index p data time,
        r'.setTracker i (stored (r'.trackers.get i) index p data time)) := by
  have hvalid : ¬ (count = 0 ∨ count ≤ index) := by omega
  -- Once the slot is known, what follows is the tracker's decision.
  have hslot : r.onFragmentReceived id index count data p time =
      if (r'.trackers.get i).totalFragments ≠ count then (none, r')
      else if (r'.trackers.get i).hasFragment index then (none, r')
      else if (r'.trackers.get i).bufferCapacity < index * p + data.length then (none, r')
      else
        let t := (r'.trackers.get i).store index (index * p) data time
        if t.isComplete then
          (some ((List.range t.totalMessageSize).map t.buffer),
            r'.setTracker i { t with active := false })
        else (none, r'.setTracker i t) := by
    cases h with
    | known hfind =>
      simp only [onFragmentReceived, if_neg hvalid, hfind]
      rfl
    | fresh hnew hfree =>
      have hfind : ((List.range 16).find? fun i => !(r.trackers.get i).active) = some i := hfree
      simp only [onFragmentReceived, if_neg hvalid, hnew, allocateTracker, hfind]
      rfl
  rw [hslot]
  generalize r'.trackers.get i = t
  by_cases htotal : t.totalFragments = count
  · by_cases hhas : t.hasFragment index = true
    · simp [FragmentTracker.Refuses, htotal, hhas]
    · by_cases hroom : t.bufferCapacity < index * p + data.length
      · simp [FragmentTracker.Refuses, htotal, hhas, hroom]
      · simp only [FragmentTracker.Refuses, htotal, hhas, hroom, released, stored]
        generalize t.store index (index * p) data time = t'
        cases hdone : t'.isComplete with
        | true => simp
        | false => simp only [Bool.not_false, Bool.and_true]; simp
  · simp [FragmentTracker.Refuses, htotal]

/-- A call with a bad index or count, or for a new message with no tracker free. -/
theorem onFragmentReceived_turnedAway
    (h : count = 0 ∨ count ≤ index ∨ r.findTracker id = none ∧ r.firstFree = none) (p : Nat)
    (data : Bytes) (time : Time) : r.onFragmentReceived id index count data p time = (none, r) := by
  by_cases hvalid : count = 0 ∨ count ≤ index
  · rw [onFragmentReceived, if_pos hvalid]
  · rw [← or_assoc] at h
    obtain ⟨hnew, hfree⟩ := h.resolve_left hvalid
    have hfind : ((List.range 16).find? fun i => !(r.trackers.get i).active) = none := hfree
    simp only [onFragmentReceived, if_neg hvalid, hnew, allocateTracker, hfind]

/-! ### Rejected fragments -/

/-- The fragment is rejected: its index or count is bad, no tracker is free for a new message,
or the tracker refuses it. -/
def Rejects (r : FragmentReassembler) (id index count len p : Nat) : Prop :=
  count = 0 ∨ count ≤ index ∨
    match r.findTracker id, r.firstFree with
    | some i, _ => (r.trackers.get i).Refuses index count len p
    | none, some i => (r.trackers.get i).bufferCapacity < index * p + len
    | none, none => True

/-- A tracker just taken refuses only what does not fit. -/
theorem taken_refuses_iff {t : FragmentTracker} {len : Nat} :
    (t.taken id count time).Refuses index count len p ↔ t.bufferCapacity < index * p + len := by
  have hhas : (t.taken id count time).hasFragment index = false :=
    (t.taken_counted id count time).mask index
  simp only [FragmentTracker.Refuses, hhas]
  simp [FragmentTracker.taken, FragmentTracker.reset]

theorem TakesUp.refuses_iff (h : TakesUp r id count time i r') (hindex : index < count)
    {len : Nat} :
    (r'.trackers.get i).Refuses index count len p ↔ r.Rejects id index count len p := by
  have hvalid : ¬ count = 0 ∧ ¬ count ≤ index := by omega
  cases h with
  | known hfind => simp [Rejects, hvalid, hfind]
  | fresh hnew hfree =>
    simp [Rejects, hvalid, hnew, hfree, get_setTracker_self, taken_refuses_iff]

/-- A free tracker would be taken for the fragment, which does not fit its buffer. -/
def TakesInVain (r : FragmentReassembler) (id index count len p : Nat) : Prop :=
  index < count ∧ r.findTracker id = none ∧
    ∃ i, r.firstFree = some i ∧ (r.trackers.get i).bufferCapacity < index * p + len

/--
**A rejected fragment changes nothing**, in any state of the reassembler, unless it is the
first of its message and does not fit the free tracker that is taken for it; then the tracker
stays taken.
-/
theorem rejected_fragment_changes_nothing (r : FragmentReassembler) (id index count : Nat)
    (data : Bytes) (p : Nat) (time : Time) (hrejects : r.Rejects id index count data.length p) :
    r.onFragmentReceived id index count data p time = (none, r) ↔
      ¬ r.TakesInVain id index count data.length p := by
  by_cases hindex : index < count
  · rcases takesUp_or_full r id count time with ⟨i, r', hup⟩ | hfull
    · rw [onFragmentReceived_takesUp hup hindex, if_pos ((hup.refuses_iff hindex).mpr hrejects)]
      cases hup with
      | known hfind => simp [TakesInVain, hfind]
      | fresh hnew hfree =>
        have hvain : r.TakesInVain id index count data.length p := by
          simp [Rejects, hnew, hfree] at hrejects
          exact ⟨hindex, hnew, i, hfree, by omega⟩
        refine ⟨fun hsame => absurd (firstFree_some hfree).2 ?_, fun hnot => absurd hvain hnot⟩
        have hactive := congrArg (fun out => (out.2.trackers.get i).active) hsame
        rw [← hactive, get_setTracker_self]
        exact Bool.true_eq_false_eq_False
    · refine iff_of_true (onFragmentReceived_turnedAway (Or.inr (Or.inr hfull)) p data time) ?_
      simp [TakesInVain, hfull.2]
  · exact iff_of_true (onFragmentReceived_turnedAway (Or.inr (Or.inl (by omega))) p data time)
      fun hvain => hindex hvain.1

/-- A fragment of nine bytes for a buffer of eight is rejected, and the message it was of has
a tracker now. -/
theorem rejected_fragment_takes_tracker :
    (init 8).Rejects 7 0 1 9 2 ∧ ((init 8).trackers.get 0).active = false ∧
      ((init 8).onFragmentReceived 7 0 1 (List.replicate 9 1) 2 0).1 = none ∧
      (((init 8).onFragmentReceived 7 0 1 (List.replicate 9 1) 2 0).2.trackers.get 0).active
        = true := by
  refine ⟨Or.inr (Or.inr ?_), rfl, by decide, by decide⟩
  show 8 < 0 * 2 + 9
  decide

/-- A copy of a fragment that has arrived is rejected without a trace. -/
theorem rejected_copy_changes_nothing :
    let r := ((init 8).onFragmentReceived 7 0 2 [1] 2 0).2
    r.onFragmentReceived 7 0 2 [1] 2 5 = (none, r) := by
  intro r
  have hfind : r.findTracker 7 = some 0 := by decide
  have hrejects : r.Rejects 7 0 2 1 2 := by
    refine Or.inr (Or.inr ?_)
    simp only [hfind]
    exact Or.inr (Or.inl (by decide))
  refine (rejected_fragment_changes_nothing r 7 0 2 [1] 2 5 hrejects).mpr ?_
  rintro ⟨-, hnew, -⟩
  rw [hfind] at hnew
  cases hnew

/-! ### Coming out more than once -/

/-- What the trackers have of the message includes the fragment. -/
def Has (r : FragmentReassembler) (id j : Nat) : Prop :=
  ∃ i < 16, r.WorksOn i id ∧ (r.trackers.get i).hasFragment j = true

end FragmentReassembler

section Once

variable (p : Nat) (messages : Nat → Pieces)

/-- The trackers work on different messages, and each has counted what it has of its own. -/
structure SoundTrackers (r : FragmentReassembler) : Prop where
  distinct : r.Distinct
  counted : ∀ i < 16, ∀ id, r.WorksOn i id →
    (r.trackers.get i).totalFragments = (messages id).count ∧ ∃ got, (r.trackers.get i).Counted got

/-- A reassembler, and the messages it has returned. -/
structure Reassembly where
  reassembler : FragmentReassembler
  returned : List (Nat × Bytes)

/-- `on_fragment_received` for a fragment of one of the messages. -/
def reassemblyStep (s : Reassembly) (a : Arrival) : Reassembly :=
  let (out, r) := s.reassembler.onFragmentReceived a.messageId a.index (messages a.messageId).count
    ((messages a.messageId).payload a.index) p a.time
  ⟨r, s.returned ++ out.toList.map fun message => (a.messageId, message)⟩

/-- How often the message has been returned. -/
def Reassembly.times (s : Reassembly) (id : Nat) : Nat := (s.returned.map Prod.fst).count id

/-- How often the fragment is among the arrivals. -/
def copiesOf (calls : List Arrival) (id j : Nat) : Nat :=
  calls.countP fun a => a.messageId = id ∧ a.index = j

variable {p messages} {r r' : FragmentReassembler} {s : Reassembly} {id i : Nat}

open FragmentReassembler

theorem sound_init (cap : Nat) : SoundTrackers messages (.init cap) where
  distinct _ _ _ _ _ hworks := absurd hworks.1 Bool.false_ne_true
  counted _ _ _ hworks := absurd hworks.1 Bool.false_ne_true

/-- Tracker `i` is replaced by one for a message on which no other works. -/
theorem SoundTrackers.setTracker (h : SoundTrackers messages r) {t : FragmentTracker} (hi : i < 16)
    (hothers : ∀ j < 16, j ≠ i → ¬ r.WorksOn j t.messageId)
    (ht : t.totalFragments = (messages t.messageId).count ∧ ∃ got, t.Counted got) :
    SoundTrackers messages (r.setTracker i t) := by
  refine ⟨h.distinct.setTracker hi hothers, ?_⟩
  intro j hj other hworks
  rw [worksOn_setTracker hi hj] at hworks
  by_cases hji : j = i
  · rw [if_pos hji] at hworks
    rw [hji, get_setTracker_self, ← hworks.2]
    exact ht
  · rw [if_neg hji] at hworks
    rw [get_setTracker_of_ne hi hj hji]
    exact h.counted j hj other hworks

/-- Of other messages the trackers then have what they had. -/
theorem FragmentReassembler.Has.of_setTracker {t : FragmentTracker} (hi : i < 16) {other j : Nat}
    (h : (r.setTracker i t).Has other j) :
    r.Has other j ∨ t.active = true ∧ t.messageId = other ∧ t.hasFragment j = true := by
  obtain ⟨k, hk, hworks, hhas⟩ := h
  rw [worksOn_setTracker hi hk] at hworks
  by_cases hki : k = i
  · rw [if_pos hki] at hworks
    rw [hki, get_setTracker_self] at hhas
    exact Or.inr ⟨hworks.1, hworks.2, hhas⟩
  · rw [if_neg hki] at hworks
    rw [get_setTracker_of_ne hi hk hki] at hhas
    exact Or.inl ⟨k, hk, hworks, hhas⟩

/-- A tracker that was the only one at work on a message is given up: nothing of the message
is left. -/
theorem FragmentReassembler.Has.of_freed {t : FragmentTracker} (hi : i < 16)
    (hfree : t.active = false) (hothers : ∀ k < 16, k ≠ i → ¬ r.WorksOn k id) {other j : Nat}
    (h : (r.setTracker i t).Has other j) : r.Has other j ∧ id ≠ other := by
  rcases h.of_setTracker hi with hold | ⟨hbusy, -, -⟩
  · refine ⟨hold, ?_⟩
    rintro rfl
    obtain ⟨k, hk, hworks, -⟩ := h
    rw [worksOn_setTracker hi hk] at hworks
    by_cases hki : k = i
    · simp [hki, hfree] at hworks
    · rw [if_neg hki] at hworks
      exact hothers k hk hki hworks
  · simp [hfree] at hbusy

/-- Finding a tracker for the message leaves the trackers sound, none but that one at work on
it, and with no fragment they did not have. -/
theorem FragmentReassembler.TakesUp.sound {time : Time}
    (hup : TakesUp r id (messages id).count time i r') (h : SoundTrackers messages r) :
    SoundTrackers messages r' ∧ (∀ j < 16, j ≠ i → ¬ r'.WorksOn j id) ∧
      ∀ other j, r'.Has other j → r.Has other j := by
  obtain ⟨hi, hworks⟩ := hup.worksOn
  have hothers : SoundTrackers messages r' → ∀ j < 16, j ≠ i → ¬ r'.WorksOn j id :=
    fun hs j hj hne hj' => hne (hs.distinct j hj i hi id hj' hworks)
  cases hup with
  | known _ => exact ⟨h, hothers h, fun _ _ hhas => hhas⟩
  | fresh hnew hfree =>
    have hcounted := (r.trackers.get i).taken_counted id (messages id).count time
    have hs := h.setTracker hi
      (t := (r.trackers.get i).taken id (messages id).count time)
      (fun j hj _ => findTracker_eq_none_iff.mp hnew j hj) ⟨rfl, ∅, hcounted⟩
    refine ⟨hs, hothers hs, fun other j hhas => ?_⟩
    rcases Has.of_setTracker hi hhas with hold | ⟨-, -, hj⟩
    · exact hold
    · simp [hcounted.mask] at hj

theorem stored_spec {t : FragmentTracker} {got : Finset Nat} {index : Nat} (h : t.Counted got)
    (hle : t.totalFragments ≤ 255) (hindex : index < t.totalFragments)
    (hmissing : t.hasFragment index = false) (p : Nat) (data : Bytes) (time : Time) :
    (stored t index p data time).messageId = t.messageId ∧
      (stored t index p data time).totalFragments = t.totalFragments ∧
      (stored t index p data time).bufferCapacity = t.bufferCapacity ∧
      (stored t index p data time).Counted (insert index got) ∧
      (stored t index p data time).active =
        (t.active && decide (insert index got ≠ Finset.range t.totalFragments)) ∧
      ((released t index p data time).isSome = true ↔
        insert index got = Finset.range t.totalFragments) := by
  have hnot : index ∉ got := by simpa [h.mask] using hmissing
  have hcounted := h.store hle hindex hnot (index * p) data time
  have hcomplete := hcounted.isComplete_iff
  have hkept := FragmentTracker.store_of_missing hmissing (index * p) data time
  have htotal : (t.store index (index * p) data time).totalFragments = t.totalFragments := by
    rw [hkept]
  rw [htotal] at hcomplete
  have hdone : (t.store index (index * p) data time).isComplete =
      decide (insert index got = Finset.range t.totalFragments) := by
    rw [Bool.eq_iff_iff, hcomplete, decide_eq_true_iff]
  refine ⟨?_, htotal, ?_, ⟨hcounted.mask, hcounted.count, hcounted.within⟩, ?_, ?_⟩
  · simp only [stored, hkept]
  · simp only [stored, hkept]
  · have hactive : (t.store index (index * p) data time).active = t.active := by rw [hkept]
    simp only [stored, hdone, hactive, ne_eq, decide_not]
  · simp [released, hdone]

/-- What an arrival can do.  It returns nothing, and the trackers have at most its fragment in
addition; or it returns its message, of which they had every other fragment and now have
none. -/
inductive Receives (messages : Nat → Pieces) (a : Arrival) (s s' : Reassembly) : Prop
  | nothing (hout : s'.returned = s.returned)
      (hhas : ∀ other j, s'.reassembler.Has other j →
        s.reassembler.Has other j ∨ a.messageId = other ∧ a.index = j)
  | message (message : Bytes) (hout : s'.returned = s.returned ++ [(a.messageId, message)])
      (hhas : ∀ other j, s'.reassembler.Has other j →
        s.reassembler.Has other j ∧ a.messageId ≠ other)
      (hall : ∀ j < (messages a.messageId).count,
        s.reassembler.Has a.messageId j ∨ a.index = j)

theorem reassemblyStep_eq {a : Arrival} {out : Option Bytes}
    (h : s.reassembler.onFragmentReceived a.messageId a.index (messages a.messageId).count
      ((messages a.messageId).payload a.index) p a.time = (out, r')) :
    reassemblyStep p messages s a =
      ⟨r', s.returned ++ out.toList.map fun message => (a.messageId, message)⟩ := by
  simp only [reassemblyStep, h]

theorem stores_receives {a : Arrival} {t : FragmentTracker} (h : SoundTrackers messages r')
    (hi : i < 16) (ht : r'.trackers.get i = t) (hworks : r'.WorksOn i a.messageId)
    (hothers : ∀ j < 16, j ≠ i → ¬ r'.WorksOn j a.messageId)
    (hhas : ∀ other j, r'.Has other j → s.reassembler.Has other j)
    (hindex : a.index < (messages a.messageId).count) (hmissing : t.hasFragment a.index = false)
    (data : Bytes) {s' : Reassembly}
    (hs' : s' = ⟨r'.setTracker i (stored t a.index p data a.time),
      s.returned ++ (released t a.index p data a.time).toList.map fun m => (a.messageId, m)⟩) :
    SoundTrackers messages s'.reassembler ∧ Receives messages a s s' := by
  obtain ⟨htotal, got, hcounted⟩ := h.counted i hi a.messageId hworks
  have hid := hworks.2
  rw [ht] at htotal hcounted hid
  have hle : t.totalFragments ≤ 255 := htotal ▸ (messages a.messageId).count_le
  obtain ⟨hid', htotal', -, hcounted', hactive, hreleased⟩ :=
    stored_spec hcounted hle (htotal ▸ hindex) hmissing p data a.time
  rw [hid] at hid'
  -- What the tracker had, the trackers had.
  have hhad : ∀ j ∈ got, s.reassembler.Has a.messageId j := by
    intro j hj
    refine hhas _ _ ⟨i, hi, hworks, ?_⟩
    rw [ht, hcounted.mask, decide_eq_true hj]
  refine ⟨?_, ?_⟩
  · rw [hs']
    refine h.setTracker hi (hid'.symm ▸ hothers) ⟨?_, _, hcounted'⟩
    rw [hid', htotal', htotal]
  by_cases hall : insert a.index got = Finset.range t.totalFragments
  · obtain ⟨message, hmessage⟩ := Option.isSome_iff_exists.mp (hreleased.mpr hall)
    have hfree : (stored t a.index p data a.time).active = false := by
      rw [hactive, decide_eq_false (not_not_intro hall), Bool.and_false]
    refine .message message ?_ ?_ ?_
    · simp [hs', hmessage]
    · intro other j hj
      rw [hs'] at hj
      obtain ⟨hold, hother⟩ := Has.of_freed hi hfree hothers hj
      exact ⟨hhas other j hold, hother⟩
    · intro j hj
      have hmem : j ∈ insert a.index got := by
        rw [hall]
        exact Finset.mem_range.mpr (htotal ▸ hj)
      rcases Finset.mem_insert.mp hmem with hnew | hold
      · exact Or.inr hnew.symm
      · exact Or.inl (hhad j hold)
  · have hnone : released t a.index p data a.time = none := by
      rw [← Option.not_isSome_iff_eq_none]
      exact fun hsome => hall (hreleased.mp hsome)
    refine .nothing ?_ ?_
    · simp [hs', hnone]
    · intro other j hj
      rw [hs'] at hj
      rcases Has.of_setTracker hi hj with hold | ⟨-, hother, hfragment⟩
      · exact Or.inl (hhas other j hold)
      · rw [hcounted'.mask, decide_eq_true_iff, Finset.mem_insert] at hfragment
        rw [hid'] at hother
        subst hother
        rcases hfragment with hnew | hold
        · exact Or.inr ⟨rfl, hnew.symm⟩
        · exact Or.inl (hhad j hold)

/-- **One arrival**, accepted or not. -/
theorem reassemblyStep_receives (h : SoundTrackers messages s.reassembler) (a : Arrival) :
    SoundTrackers messages (reassemblyStep p messages s a).reassembler ∧
      Receives messages a s (reassemblyStep p messages s a) := by
  by_cases hindex : a.index < (messages a.messageId).count
  · rcases takesUp_or_full s.reassembler a.messageId (messages a.messageId).count a.time with
      ⟨i, r', hup⟩ | hfull
    · obtain ⟨hsound, hothers, hhas⟩ := hup.sound h
      obtain ⟨hi, hworks⟩ := hup.worksOn
      have heq := onFragmentReceived_takesUp hup hindex p ((messages a.messageId).payload a.index)
      by_cases hrefuses : (r'.trackers.get i).Refuses a.index (messages a.messageId).count
          ((messages a.messageId).payload a.index).length p
      · rw [if_pos hrefuses] at heq
        rw [reassemblyStep_eq heq]
        exact ⟨hsound, .nothing (by simp) fun other j hj => Or.inl (hhas other j hj)⟩
      · rw [if_neg hrefuses] at heq
        rw [reassemblyStep_eq heq]
        have hmissing : (r'.trackers.get i).hasFragment a.index = false :=
          Bool.eq_false_iff.mpr fun hc => hrefuses (Or.inr (Or.inl hc))
        exact stores_receives hsound hi rfl hworks hothers hhas hindex hmissing _ rfl
    · rw [reassemblyStep_eq (onFragmentReceived_turnedAway (Or.inr (Or.inr hfull)) _ _ _)]
      exact ⟨h, .nothing (by simp) fun other j hj => Or.inl hj⟩
  · rw [reassemblyStep_eq
      (onFragmentReceived_turnedAway (Or.inr (Or.inl (Nat.le_of_not_lt hindex))) _ _ _)]
    exact ⟨h, .nothing (by simp) fun other j hj => Or.inl hj⟩

/-- What a message has cost so far: it has been returned at most `k` times, and less often if
the trackers have the fragment. -/
def PaidFor (s : Reassembly) (id j k : Nat) : Prop :=
  s.times id ≤ k ∧ (s.reassembler.Has id j → s.times id < k)

/-- An arrival of the fragment pays for one return, and no other arrival leads to one that is
not paid for. -/
theorem Receives.paidFor {a : Arrival} {s' : Reassembly} {j k : Nat}
    (h : Receives messages a s s') (hj : j < (messages id).count) (hk : PaidFor s id j k) :
    PaidFor s' id j (k + if a.messageId = id ∧ a.index = j then 1 else 0) := by
  obtain ⟨hle, hlt⟩ := hk
  cases h with
  | nothing hout hhas =>
    have htimes : s'.times id = s.times id := by simp [Reassembly.times, hout]
    refine ⟨by omega, fun hhas' => ?_⟩
    rcases hhas id j hhas' with hold | hnew
    · have := hlt hold
      omega
    · rw [if_pos hnew]
      omega
  | message message hout hhas hall =>
    by_cases hid : a.messageId = id
    · have htimes : s'.times id = s.times id + 1 := by simp [Reassembly.times, hout, hid]
      refine ⟨?_, fun hhas' => absurd hid (hhas id j hhas').2⟩
      subst hid
      rcases hall j hj with hold | hnew
      · have := hlt hold
        omega
      · rw [if_pos ⟨rfl, hnew⟩]
        omega
    · have htimes : s'.times id = s.times id := by simp [Reassembly.times, hout, hid]
      refine ⟨by omega, fun hhas' => ?_⟩
      have := hlt (hhas id j hhas').1
      omega

/-- Every return of a message is paid for by an arrival of each of its fragments. -/
theorem run_times_le {j : Nat} (hj : j < (messages id).count) :
    ∀ (calls : List Arrival) {s : Reassembly} {k : Nat}, SoundTrackers messages s.reassembler →
      PaidFor s id j k →
      (run (reassemblyStep p messages) s calls).times id ≤ k + copiesOf calls id j := by
  intro calls
  induction calls with
  | nil => intro s k _ hk; exact hk.1
  | cons a rest ih =>
    intro s k hsound hk
    obtain ⟨hsound', hreceives⟩ := reassemblyStep_receives (p := p) hsound a
    have hcopies : copiesOf (a :: rest) id j =
        copiesOf rest id j + if a.messageId = id ∧ a.index = j then 1 else 0 := by
      simp [copiesOf, List.countP_cons]
    have hrest := ih hsound' (hreceives.paidFor hj hk)
    rw [run_cons]
    omega

/-- A message that has been returned was returned a first time, after which the trackers have
nothing of it. -/
theorem exists_first_return : ∀ (calls : List Arrival) {s : Reassembly},
    SoundTrackers messages s.reassembler → s.times id = 0 →
    0 < (run (reassemblyStep p messages) s calls).times id →
    ∃ n < calls.length, (run (reassemblyStep p messages) s (calls.take n)).times id = 0 ∧
      (run (reassemblyStep p messages) s (calls.take (n + 1))).times id = 1 ∧
      SoundTrackers messages
        (run (reassemblyStep p messages) s (calls.take (n + 1))).reassembler ∧
      ∀ j, ¬ (run (reassemblyStep p messages) s (calls.take (n + 1))).reassembler.Has id j := by
  intro calls
  induction calls with
  | nil => intro s _ hzero hpos; exact absurd hzero (Nat.ne_of_gt hpos)
  | cons a rest ih =>
    intro s hsound hzero hpos
    obtain ⟨hsound', hreceives⟩ := reassemblyStep_receives (p := p) hsound a
    by_cases hnext : (reassemblyStep p messages s a).times id = 0
    · obtain ⟨n, hn, hbefore, hafter⟩ := ih hsound' hnext hpos
      exact ⟨n + 1, Nat.succ_lt_succ hn, hbefore, hafter⟩
    · refine ⟨0, Nat.succ_pos _, hzero, ?_⟩
      show (reassemblyStep p messages s a).times id = 1 ∧ SoundTrackers messages
        (reassemblyStep p messages s a).reassembler ∧
        ∀ j, ¬ (reassemblyStep p messages s a).reassembler.Has id j
      generalize reassemblyStep p messages s a = s' at *
      cases hreceives with
      | nothing hout hhas =>
        refine absurd ?_ hnext
        rw [Reassembly.times, hout]
        exact hzero
      | message message hout hhas hall =>
        have htimes : s'.times id = s.times id + if a.messageId = id then 1 else 0 := by
          simp [Reassembly.times, hout, List.count_singleton]
        have hid : a.messageId = id := by
          by_contra hne
          rw [if_neg hne] at htimes
          omega
        rw [if_pos hid] at htimes
        exact ⟨by omega, hsound', fun j hj => (hhas id j hj).2 hid⟩

variable (p messages) in
/-- The reassembler as initialised, and what it has done with the arrivals. -/
def reassembled (cap : Nat) (calls : List Arrival) : Reassembly :=
  run (reassemblyStep p messages) ⟨.init cap, []⟩ calls

/--
**A fragmented message is returned at most once**, whatever is duplicated, reordered or
refused, as long as some fragment of it does not arrive again after it has been returned.
-/
theorem message_returned_at_most_once (messages : Nat → Pieces) (p cap : Nat)
    (calls : List Arrival) (id : Nat)
    (hlate : ∀ n < calls.length,
      (reassembled p messages cap (calls.take n)).times id <
        (reassembled p messages cap (calls.take (n + 1))).times id →
      ∃ j < (messages id).count, copiesOf (calls.drop (n + 1)) id j = 0) :
    (reassembled p messages cap calls).times id ≤ 1 := by
  by_cases hpos : 0 < (reassembled p messages cap calls).times id
  · obtain ⟨n, hn, hbefore, hfirst, hsound, hnone⟩ :=
      exists_first_return calls (sound_init cap) rfl hpos
    obtain ⟨j, hj, hcopies⟩ := hlate n hn (by
      unfold reassembled
      rw [hbefore, hfirst]
      exact Nat.one_pos)
    -- What comes after the first return brings no further copy of fragment `j`.
    have hrest := run_times_le (p := p) hj (calls.drop (n + 1)) hsound
      (k := 1) ⟨Nat.le_of_eq hfirst, fun hhas => absurd hhas (hnone j)⟩
    rw [← run_append, List.take_append_drop, hcopies] at hrest
    exact hrest
  · omega

/-- A message of two fragments, under every id. -/
def twoPieces : Nat → Pieces := fun _ => ⟨2, fun i => [UInt8.ofNat i], by decide⟩

/-- A copy of one of its fragments does not bring the message back. -/
theorem message_returned_once :
    (reassembled 1 twoPieces 8 [⟨0, 1, 0⟩, ⟨0, 1, 0⟩, ⟨0, 0, 1⟩, ⟨0, 0, 2⟩]).times 0 = 1 := by
  have hmost := message_returned_at_most_once twoPieces 1 8
    [⟨0, 1, 0⟩, ⟨0, 1, 0⟩, ⟨0, 0, 1⟩, ⟨0, 0, 2⟩] 0 (by decide)
  have hleast : 1 ≤ (reassembled 1 twoPieces 8
      [⟨0, 1, 0⟩, ⟨0, 1, 0⟩, ⟨0, 0, 1⟩, ⟨0, 0, 2⟩]).times 0 := by decide
  exact Nat.le_antisymm hmost hleast

/-- Copies of both do. -/
theorem message_returned_twice :
    (reassembled 1 twoPieces 8 [⟨0, 0, 0⟩, ⟨0, 1, 0⟩, ⟨0, 1, 1⟩, ⟨0, 0, 1⟩]).returned =
      [(0, [0, 1]), (0, [0, 1])] := by
  decide

end Once

end Netudp
