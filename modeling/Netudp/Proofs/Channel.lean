/-
Channels and the scheduler, as specifications.

A channel is its queue of messages; the lemmas here say what each operation does to
that list and leave the ring buffer behind.  For the schedulers: what they pick is
ready, the fast one keeps exactly the bits of ready channels, and it picks what the
full one picks when the mask covers every ready channel.
-/
import Netudp.Channel.Channel

namespace Netudp

open Lib

variable {c : Channel} {now : Time}

/-! ### The queue -/

/-- The messages waiting, oldest first. -/
def Channel.queue (c : Channel) : List QueuedMessage := c.sendQueue.toList

theorem Channel.queue_eq_nil_iff : c.queue = [] ↔ c.sendQueue.size = 0 :=
  FixedRingBuffer.toList_eq_nil_iff

@[simp] theorem Channel.queue_startNagle : (c.startNagle now).queue = c.queue := by
  unfold Channel.startNagle
  split <;> rfl

@[simp] theorem Channel.config_startNagle : (c.startNagle now).config = c.config := by
  unfold Channel.startNagle
  split <;> rfl

@[simp] theorem Channel.sendSeq_startNagle : (c.startNagle now).sendSeq = c.sendSeq := by
  unfold Channel.startNagle
  split <;> rfl

/-- The same messages and counter; the Nagle state may differ. -/
structure SameMessages (q q' : Channel) : Prop where
  queue : q'.queue = q.queue
  sendSeq : q'.sendSeq = q.sendSeq
  config : q'.config = q.config

theorem startNagle_sameMessages (q : Channel) (now : Time) : SameMessages q (q.startNagle now) :=
  ⟨Channel.queue_startNagle, Channel.sendSeq_startNagle, Channel.config_startNagle⟩

/-- Taking a message: the oldest one leaves, and the Nagle timer is cleared. -/
theorem Channel.dequeueSend_cons {msg : QueuedMessage} {rest : List QueuedMessage}
    (h : c.queue = msg :: rest) :
    ∃ q, q.toList = rest ∧ c.dequeueSend =
      (some msg, { c with sendQueue := q, nagleReady := false, nagleAccumulateTime := 0 }) := by
  have hne : c.sendQueue.size ≠ 0 := by
    intro hz
    rw [Channel.queue_eq_nil_iff.mpr hz] at h
    exact absurd h.symm (List.cons_ne_nil msg rest)
  obtain ⟨hmsg, hrest⟩ := FixedRingBuffer.popFront_of_cons h
  refine ⟨_, hrest, ?_⟩
  simp only [Channel.dequeueSend, if_neg hne, hmsg]

theorem Channel.dequeueSend_nil (h : c.queue = []) : c.dequeueSend = (none, c) := by
  rw [Channel.dequeueSend, if_pos (Channel.queue_eq_nil_iff.mp h)]

theorem Channel.dequeueSend_some {q : Channel} {msg : QueuedMessage}
    (h : c.dequeueSend = (some msg, q)) : ∃ rest r, c.queue = msg :: rest ∧ r.toList = rest ∧
      q = { c with sendQueue := r, nagleReady := false, nagleAccumulateTime := 0 } := by
  cases hqueue : c.queue with
  | nil =>
    rw [Channel.dequeueSend_nil hqueue] at h
    exact absurd (Prod.mk.inj h).1 (by simp)
  | cons first rest =>
    obtain ⟨r, hrest, heq⟩ := Channel.dequeueSend_cons hqueue
    rw [heq] at h
    obtain ⟨hmsg, hq⟩ := Prod.mk.inj h
    rw [Option.some.injEq] at hmsg
    exact ⟨rest, r, by rw [hmsg], hrest, hq.symm⟩

theorem Channel.hasPending_ne_nil (h : c.hasPending now = true) : c.queue ≠ [] := by
  intro hnil
  unfold Channel.hasPending at h
  rw [if_pos (Channel.queue_eq_nil_iff.mp hnil)] at h
  exact absurd h Bool.false_ne_true

theorem Channel.enqueue_true {data : Bytes} {flags : SendFlags} {eid : Nat} {c' : Channel}
    (h : c.enqueue data flags eid = (true, c')) :
    c'.queue = c.queue ++ [⟨data, c.sendSeq, eid, flags, true⟩] ∧
      c'.sendSeq = (c.sendSeq + 1) % u16Size ∧ c'.config = c.config ∧
      c'.nagleThresholdSec = c.nagleThresholdSec := by
  unfold Channel.enqueue at h
  split at h
  · exact absurd (Prod.mk.inj h).1 Bool.false_ne_true
  · rename_i hroom
    have hlt : c.sendQueue.size < 256 := Nat.lt_of_le_of_ne c.sendQueue.size_le hroom
    have hpush := (FixedRingBuffer.pushBack_of_lt hlt
      (⟨data, c.sendSeq, eid, flags, true⟩ : QueuedMessage)).2
    rw [← (Prod.mk.inj h).2]
    unfold Channel.bypassNagle
    split
    · exact ⟨hpush, rfl, rfl, rfl⟩
    · exact ⟨hpush, rfl, rfl, rfl⟩

/-- A plain send that is accepted appends the message under the next sequence. -/
theorem Channel.queueSend_true {data : Bytes} {flags : SendFlags} {c' : Channel}
    (h : c.queueSend data flags = (true, c')) :
    (0 < data.length ∧ data.length ≤ mtu) ∧
      c'.queue = c.queue ++ [⟨data, c.sendSeq, 0, flags, true⟩] ∧
      c'.sendSeq = (c.sendSeq + 1) % u16Size ∧ c'.config = c.config ∧
      c'.nagleThresholdSec = c.nagleThresholdSec := by
  unfold Channel.queueSend Channel.queueSendImpl at h
  split at h
  · exact absurd (Prod.mk.inj h).1 Bool.false_ne_true
  · rename_i hlen
    rw [if_neg (fun hc => hc.2 rfl)] at h
    exact ⟨by omega, Channel.enqueue_true h⟩

/-! ### The full scheduler -/

theorem BestChannel.consider_best_ne (b : BestChannel) (i priority : Nat) :
    (b.consider i priority).best = some i ∨
      (b.consider i priority).best = b.best ∧ b.best ≠ none := by
  unfold BestChannel.consider
  by_cases h : b.best = none ∨ b.priority < priority
  · rw [if_pos h]
    exact Or.inl rfl
  · rw [if_neg h]
    exact Or.inr ⟨rfl, fun hnone => h (Or.inl hnone)⟩

/-- What a scan over channels returns satisfied the test, or was the best before. -/
theorem foldl_consider_best (ready : Nat → Bool) (priority : Nat → Nat) :
    ∀ (l : List Nat) (b : BestChannel) (i : Nat),
      (l.foldl (fun (b : BestChannel) i => if ready i then b.consider i (priority i) else b)
        b).best = some i →
      (i ∈ l ∧ ready i = true) ∨ b.best = some i := by
  intro l
  induction l with
  | nil => intro b i h; exact Or.inr h
  | cons j rest ih =>
    intro b i h
    simp only [List.foldl_cons] at h
    rcases ih _ i h with ⟨hmem, hready⟩ | hbest
    · exact Or.inl ⟨List.mem_cons_of_mem _ hmem, hready⟩
    · by_cases hj : ready j = true
      · rw [if_pos hj] at hbest
        rcases b.consider_best_ne j (priority j) with hnew | ⟨hold, -⟩
        · rw [hnew, Option.some.injEq] at hbest
          rw [← hbest]
          exact Or.inl ⟨List.mem_cons_self, hj⟩
        · exact Or.inr (hold ▸ hbest)
      · rw [if_neg hj] at hbest
        exact Or.inr hbest

variable {channels : Channels} {n i : Nat} {mask : PendingMask}

theorem nextChannel_ready (h : nextChannel channels n now = some i) :
    i < n ∧ (channels.get i).hasPending now = true := by
  rcases foldl_consider_best (fun i => (channels.get i).hasPending now)
    (fun i => (channels.get i).config.priority) _ _ _ h with ⟨hmem, hready⟩ | hnone
  · exact ⟨List.mem_range.mp hmem, hready⟩
  · exact absurd hnone (by simp)

/-! ### The fast scheduler -/

/-- The scan of the fast scheduler is the full one restricted to the mask, beside the
mask of what it found ready. -/
theorem foldl_fast (ready : Nat → Bool) (priority : Nat → Nat) :
    ∀ (l : List Nat) (b : BestChannel) (m : PendingMask),
      l.foldl (fun (acc : BestChannel × PendingMask) i =>
          if ready i then (acc.1.consider i (priority i), acc.2 ||| maskBit i) else acc) (b, m)
        = (l.foldl (fun (b : BestChannel) i => if ready i then b.consider i (priority i) else b) b,
          l.foldl (fun (m : PendingMask) i => if ready i then m ||| maskBit i else m) m) := by
  intro l
  induction l with
  | nil => intro b m; rfl
  | cons i rest ih =>
    intro b m
    simp only [List.foldl_cons]
    by_cases h : ready i = true
    · rw [if_pos h, if_pos h, if_pos h]
      exact ih _ _
    · rw [if_neg h, if_neg h, if_neg h]
      exact ih _ _

theorem getLsbD_maskBit (j : Nat) (hi : i < 8) : (maskBit j).getLsbD i = decide (j = i) := by
  unfold maskBit
  simp [hi, eq_comm]

theorem foldl_maskBit {ready : Nat → Bool} (hi : i < 8) :
    ∀ (l : List Nat) (m : PendingMask),
      (l.foldl (fun (m : PendingMask) i => if ready i then m ||| maskBit i else m) m).getLsbD i
        = (m.getLsbD i || (decide (i ∈ l) && ready i)) := by
  intro l
  induction l with
  | nil => intro m; simp
  | cons j rest ih =>
    intro m
    rw [List.foldl_cons, ih]
    by_cases hj : ready j = true
    · rw [if_pos hj, BitVec.getLsbD_or, getLsbD_maskBit j hi]
      by_cases hij : j = i
      · subst hij
        simp [hj]
      · have hij' : i ≠ j := fun hc => hij hc.symm
        simp [hij, hij']
    · rw [if_neg hj]
      by_cases hij : i = j
      · subst hij
        simp [Bool.eq_false_iff.mpr hj]
      · simp [hij]

/-- The bits the fast scheduler leaves: those it found set on a ready channel. -/
theorem nextChannelFast_mask (hn : n ≤ 8) (hi : i < n) :
    (nextChannelFast channels n now mask).2.getLsbD i
      = (mask.getLsbD i && (channels.get i).hasPending now) := by
  unfold nextChannelFast
  by_cases hz : mask = 0
  · rw [if_pos hz, hz]
    simp
  · rw [if_neg hz]
    simp only [foldl_fast (fun i => mask.getLsbD i && (channels.get i).hasPending now)]
    rw [foldl_maskBit (by omega)]
    have hmem : i ∈ List.range (min n 8) := List.mem_range.mpr (by omega)
    simp [hmem]

theorem nextChannelFast_ready (h : (nextChannelFast channels n now mask).1 = some i) :
    i < n ∧ (channels.get i).hasPending now = true := by
  unfold nextChannelFast at h
  by_cases hz : mask = 0
  · rw [if_pos hz] at h
    simp at h
  · rw [if_neg hz] at h
    simp only [foldl_fast (fun i => mask.getLsbD i && (channels.get i).hasPending now)] at h
    rcases foldl_consider_best _ _ _ _ _ h with ⟨hmem, hready⟩ | hnone
    · have hlt := List.mem_range.mp hmem
      rw [Bool.and_eq_true] at hready
      exact ⟨by omega, hready.2⟩
    · exact absurd hnone (by simp)

theorem nextChannel_none (h : ∀ i, i < n → (channels.get i).hasPending now = false) :
    nextChannel channels n now = none := by
  cases hres : nextChannel channels n now with
  | none => rfl
  | some i =>
    obtain ⟨hi, hready⟩ := nextChannel_ready hres
    rw [h i hi] at hready
    exact absurd hready Bool.false_ne_true

/-- **A mask that covers every ready channel makes the fast scheduler exact.** -/
theorem nextChannelFast_eq (hn : n ≤ 8)
    (hcover : ∀ i, i < n → (channels.get i).hasPending now = true → mask.getLsbD i = true) :
    (nextChannelFast channels n now mask).1 = nextChannel channels n now := by
  unfold nextChannelFast
  by_cases hz : mask = 0
  · rw [if_pos hz]
    refine (nextChannel_none fun i hi => ?_).symm
    by_contra hready
    have := hcover i hi (Bool.eq_true_of_not_eq_false hready)
    rw [hz] at this
    simp at this
  · rw [if_neg hz, Nat.min_eq_left hn]
    simp only [foldl_fast (fun i => mask.getLsbD i && (channels.get i).hasPending now)]
    unfold nextChannel
    congr 1
    refine List.foldl_ext _ _ _ fun b i hi => ?_
    have hlt := List.mem_range.mp hi
    cases hready : (channels.get i).hasPending now with
    | false => simp
    | true => simp [hcover i hlt hready]

/-- What a scan of the channels below `n` should find: none that is ready, or the first of
the highest priority among those that are. -/
def Highest (ready : Nat → Bool) (priority : Nat → Nat) (n : Nat) : Option Nat → Prop
  | none => ∀ j < n, ready j = false
  | some i => i < n ∧ ready i = true ∧
      ∀ j < n, ready j = true → priority j ≤ priority i ∧ (priority j = priority i → i ≤ j)

theorem foldl_consider_highest (ready : Nat → Bool) (priority : Nat → Nat) (n : Nat) :
    let b := (List.range n).foldl
      (fun (b : BestChannel) i => if ready i then b.consider i (priority i) else b) {}
    Highest ready priority n b.best ∧ ∀ i, b.best = some i → b.priority = priority i := by
  induction n with
  | zero => exact ⟨fun j hj => absurd hj (Nat.not_lt_zero j), fun i hi => by cases hi⟩
  | succ n ih =>
    simp only [List.range_succ, List.foldl_append, List.foldl_cons, List.foldl_nil]
    generalize (List.range n).foldl _ _ = b at ih
    obtain ⟨best, top⟩ := b
    -- The channel is the first that is ready, beats the best one, or does not.
    cases best with
    | none =>
      simp only [Highest, BestChannel.consider] at ih ⊢
      grind
    | some i =>
      simp only [Highest, BestChannel.consider] at ih ⊢
      grind

/-- **The scheduler picks the first of the highest priority** among the channels that are
ready, and so does the fast one with a mask that covers them. -/
theorem scheduler_picks_highest (channels : Channels) (n : Nat) (now : Time) :
    let ready := fun i => (channels.get i).hasPending now
    Highest ready (fun i => (channels.get i).config.priority) n (nextChannel channels n now) ∧
    ∀ mask : PendingMask, n ≤ 8 → (∀ j < n, ready j = true → mask.getLsbD j = true) →
      (nextChannelFast channels n now mask).1 = nextChannel channels n now :=
  ⟨(foldl_consider_highest _ _ n).1, fun _ hn hcover => nextChannelFast_eq hn hcover⟩

end Netudp
