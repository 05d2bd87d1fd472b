/-
What the acknowledgement of received packets says.

A received packet is its number in the sender's stream, its wire sequence that number
modulo `2 ^ 16`.  With all numbers in a stretch of `2 ^ 15` the signed differences are
the true ones, so the tracker keeps the newest number `n` and, in bit `N`, whether
`n - N - 1` came.  Bit 31 is the exception: a packet 32 past the newest clears it though
the old newest belongs there, and a packet 32 behind the newest does not set it.
-/
import Netudp.Proofs.Reassembly
import Netudp.Reliability.PacketTracker

namespace Netudp

open Lib

variable {t : PacketTracker} {n i : Nat} {time : Time}

/-! ### `on_packet_received` -/

theorem onPacketReceived_first (h : t.receivedAny = false) (seq : Nat) (time : Time) :
    t.onPacketReceived seq time
      = { t with recvAck := seq, recvTime := time, receivedAny := true } := by
  simp [PacketTracker.onPacketReceived, h]

theorem onPacketReceived_newer (hany : t.receivedAny = true) (hack : t.recvAck = n % u16Size)
    (hlt : n < i) (hnear : i < n + 2 ^ 15) (time : Time) :
    t.onPacketReceived (i % u16Size) time =
      { t with
        recvAckBits := if i - n < 32 then
          (t.recvAckBits <<< (i - n)) ||| BitVec.twoPow 32 (i - n - 1) else 0
        recvAck := i % u16Size
        recvTime := time } := by
  have hdiff : serialDiff u16Size (i % u16Size) t.recvAck = (i - n : Nat) := by
    rw [hack, serialDiff_mod (by unfold u16Size; omega) (by unfold u16Size; omega)]
    omega
  simp only [PacketTracker.onPacketReceived, hany, hdiff, Int.toNat_natCast]
  rw [if_neg (by decide), if_pos (by omega)]

/-- A packet not past the newest sets its bit, if it has one. -/
theorem onPacketReceived_older (hany : t.receivedAny = true) (hack : t.recvAck = n % u16Size)
    (hle : i ≤ n) (hnear : n < i + 2 ^ 15) (time : Time) :
    t.onPacketReceived (i % u16Size) time =
      if i < n ∧ n < i + 32 then
        { t with recvAckBits := t.recvAckBits ||| BitVec.twoPow 32 (n - i - 1) }
      else t := by
  have hdiff : serialDiff u16Size (i % u16Size) t.recvAck = -(n - i : Nat) := by
    rw [hack, serialDiff_mod (by unfold u16Size; omega) (by unfold u16Size; omega)]
    omega
  simp only [PacketTracker.onPacketReceived, hany, hdiff, neg_neg, Int.toNat_natCast]
  rw [if_neg (by decide), if_neg (by omega)]
  by_cases hin : i < n ∧ n < i + 32
  · rw [if_pos hin, if_pos (by omega)]
  · rw [if_neg hin, if_neg (by omega)]

theorem getLsbD_shift_in (bits : BitVec 32) {s N : Nat} (hs : 0 < s) (hN : N < 32) :
    ((bits <<< s) ||| BitVec.twoPow 32 (s - 1)).getLsbD N = true ↔
      N + 1 = s ∨ s ≤ N ∧ bits.getLsbD (N - s) = true := by
  simp only [BitVec.getLsbD_or, BitVec.getLsbD_shiftLeft, BitVec.getLsbD_twoPow, hN, decide_true,
    Bool.true_and, Bool.or_eq_true, Bool.and_eq_true, Bool.not_eq_true', decide_eq_false_iff_not,
    decide_eq_true_eq, Nat.not_lt]
  constructor
  · rintro (⟨hle, hbit⟩ | ⟨-, heq⟩)
    · exact Or.inr ⟨hle, hbit⟩
    · exact Or.inl (by omega)
  · rintro (heq | ⟨hle, hbit⟩)
    · exact Or.inr ⟨by omega, by omega⟩
    · exact Or.inl ⟨hle, hbit⟩

theorem getLsbD_fill_in (bits : BitVec 32) {b N : Nat} (hb : b < 32) :
    (bits ||| BitVec.twoPow 32 b).getLsbD N = true ↔ bits.getLsbD N = true ∨ b = N := by
  simp [BitVec.getLsbD_or, BitVec.getLsbD_twoPow, hb]

/-! ### Exact acknowledgements -/

/-- `n` is the newest of the packets received. -/
def Newest (got : List Nat) (n : Nat) : Prop :=
  n ∈ got ∧ ∀ j ∈ got, j ≤ n

theorem Newest.unique {got : List Nat} {n n' : Nat} (h : Newest got n) (h' : Newest got n') :
    n = n' :=
  Nat.le_antisymm (h'.2 n h.1) (h.2 n' h'.1)

theorem newest_append {got : List Nat} {n : Nat} (h : Newest got n) (i : Nat) :
    Newest (got ++ [i]) (max i n) := by
  constructor
  · rcases Nat.le_total i n with hle | hle
    · rw [Nat.max_eq_right hle]
      exact List.mem_append_left _ h.1
    · rw [Nat.max_eq_left hle]
      exact List.mem_append_right _ (List.mem_singleton_self i)
  · intro j hj
    rcases List.mem_append.mp hj with hold | hnew
    · exact Nat.le_trans (h.2 j hold) (Nat.le_max_right i n)
    · rw [List.mem_singleton.mp hnew]
      exact Nat.le_max_left i n

/-- The fields name the newest packet received, and bit `N` tells whether the packet
`N + 1` before it came. -/
def AcksExactly (got : List Nat) (fields : AckFields) : Prop :=
  ∃ n, Newest got n ∧ fields.ack = n % u16Size ∧
    ∀ N < 32, fields.ackBits.getLsbD N = true ↔
      ∃ j ∈ got, j % u16Size = (fields.ack + u16Size - (N + 1)) % u16Size

/-- The wire sequence `N + 1` before the newest is that of the packet `N + 1` before it. -/
theorem mod_eq_back_iff {base : Nat} {got : List Nat} (hspan : Spans (2 ^ 15) base got) {j N : Nat}
    (hn : n ∈ got) (hj : j ∈ got) (hN : N < 32) :
    j % u16Size = (n % u16Size + u16Size - (N + 1)) % u16Size ↔ j + N + 1 = n := by
  obtain ⟨hn1, hn2⟩ := hspan n hn
  obtain ⟨hj1, hj2⟩ := hspan j hj
  unfold u16Size
  omega

/-- What the tracker's fields mean, in true numbers. -/
def BitsExact (got : List Nat) (n : Nat) (bits : BitVec 32) : Prop :=
  ∀ N < 32, bits.getLsbD N = true ↔ ∃ j ∈ got, j + N + 1 = n

theorem acksExactly_iff {base : Nat} {got : List Nat} (hspan : Spans (2 ^ 15) base got)
    (hn : Newest got n) (hack : t.recvAck = n % u16Size) (now : Time) :
    AcksExactly got (t.buildAckFields now) ↔ BitsExact got n t.recvAckBits := by
  have hbits : ∀ N < 32, (∃ j ∈ got, j % u16Size = (n % u16Size + u16Size - (N + 1)) % u16Size) ↔
      ∃ j ∈ got, j + N + 1 = n := by
    intro N hN
    exact exists_congr fun j => and_congr_right fun hj => mod_eq_back_iff hspan hn.1 hj hN
  simp only [AcksExactly, PacketTracker.buildAckFields, hack]
  constructor
  · rintro ⟨n', hn', -, hexact⟩ N hN
    rw [hexact N hN, hbits N hN]
  · intro hexact
    refine ⟨n, hn, rfl, ?_⟩
    intro N hN
    rw [hexact N hN, hbits N hN]

/-! ### One arrival -/

/-- A packet arrives 32 past the newest never, and 32 behind it only as a copy. -/
def AvoidsLastBit (before : List Nat) (e : Nat × Time) : Prop :=
  ∀ n ∈ before, (∀ j ∈ before, j ≤ n) → e.1 ≠ n + 32 ∧ (e.1 + 32 = n → e.1 ∈ before)
deriving Decidable

theorem avoidsLastBit_iff {before : List Nat} (hn : Newest before n) :
    AvoidsLastBit before (i, time) ↔ i ≠ n + 32 ∧ (i + 32 = n → i ∈ before) := by
  constructor
  · intro h
    exact h n hn.1 hn.2
  · intro h n' hn' hmax
    rw [Newest.unique ⟨hn', hmax⟩ hn]
    exact h

theorem exists_mem_concat {got : List Nat} {i N m : Nat} :
    (∃ j ∈ got ++ [i], j + N + 1 = m) ↔ (∃ j ∈ got, j + N + 1 = m) ∨ i + N + 1 = m := by
  simp [or_and_right, exists_or]

/-- A packet past the newest keeps the bits exact unless it is 32 past it. -/
theorem bitsExact_newer {got : List Nat} {bits : BitVec 32} (hn : Newest got n)
    (h : BitsExact got n bits) (hlt : n < i) :
    BitsExact (got ++ [i]) i
        (if i - n < 32 then (bits <<< (i - n)) ||| BitVec.twoPow 32 (i - n - 1) else 0) ↔
      i ≠ n + 32 := by
  have hback : ∀ N < 32, i - n < 32 →
      ((∃ j ∈ got ++ [i], j + N + 1 = i) ↔ N + 1 = i - n ∨ i - n ≤ N ∧
        bits.getLsbD (N - (i - n)) = true) := by
    intro N hN hs
    rw [exists_mem_concat]
    constructor
    · rintro (⟨j, hj, hjN⟩ | himp)
      · have hjn := hn.2 j hj
        rcases Nat.lt_or_ge N (i - n) with hlow | hhigh
        · exact Or.inl (by omega)
        · exact Or.inr ⟨hhigh, (h (N - (i - n)) (by omega)).mpr ⟨j, hj, by omega⟩⟩
      · omega
    · rintro (heq | ⟨hle, hbit⟩)
      · exact Or.inl ⟨n, hn.1, by omega⟩
      · obtain ⟨j, hj, hjN⟩ := (h (N - (i - n)) (by omega)).mp hbit
        exact Or.inl ⟨j, hj, by omega⟩
  constructor
  · rintro hexact rfl
    -- The old newest is 32 back, and its bit is clear.
    have hbit := (hexact 31 (by omega)).mpr ⟨n, List.mem_append_left _ hn.1, by omega⟩
    rw [if_neg (by omega)] at hbit
    exact absurd hbit (by simp)
  · intro hne N hN
    by_cases hs : i - n < 32
    · rw [if_pos hs, getLsbD_shift_in bits (by omega) hN, hback N hN hs]
    · rw [if_neg hs, exists_mem_concat]
      constructor
      · intro hbit
        exact absurd hbit (by simp)
      · rintro (⟨j, hj, hjN⟩ | himp)
        · have hjn := hn.2 j hj
          omega
        · omega

/-- A packet not past the newest keeps the bits exact unless it is a new one 32 behind. -/
theorem bitsExact_older {got : List Nat} {bits : BitVec 32} (h : BitsExact got n bits) :
    BitsExact (got ++ [i]) n
        (if i < n ∧ n < i + 32 then bits ||| BitVec.twoPow 32 (n - i - 1) else bits) ↔
      (i + 32 = n → i ∈ got) := by
  by_cases hin : i < n ∧ n < i + 32
  · rw [if_pos hin]
    refine iff_of_true ?_ (fun heq => absurd heq (by omega))
    intro N hN
    rw [getLsbD_fill_in bits (by omega), exists_mem_concat, h N hN]
    exact or_congr_right (by omega)
  · rw [if_neg hin]
    constructor
    · intro hexact heq
      have hbit := (hexact 31 (by omega)).mpr
        ⟨i, List.mem_append_right _ (List.mem_singleton_self i), by omega⟩
      obtain ⟨j, hj, hjN⟩ := (h 31 (by omega)).mp hbit
      rwa [show j = i by omega] at hj
    · intro hcopy N hN
      rw [exists_mem_concat, h N hN]
      constructor
      · exact Or.inl
      · rintro (hold | hnew)
        · exact hold
        · exact ⟨i, hcopy (by omega), hnew⟩

/-! ### Runs -/

/-- `on_packet_received` for the packet of that number. -/
def receivePacket (t : PacketTracker) (e : Nat × Time) : PacketTracker :=
  t.onPacketReceived (e.1 % u16Size) e.2

/-- The tracker after packets `got`, whose newest is `n`, its bits exact. -/
structure Acknowledges (got : List Nat) (n : Nat) (t : PacketTracker) : Prop where
  newest : Newest got n
  any : t.receivedAny = true
  ack : t.recvAck = n % u16Size
  bits : BitsExact got n t.recvAckBits

theorem acknowledges_first (e : Nat × Time) :
    Acknowledges [e.1] e.1 (receivePacket .reset e) := by
  rw [receivePacket, onPacketReceived_first rfl]
  refine ⟨⟨List.mem_singleton_self _, fun j hj => (List.mem_singleton.mp hj).le⟩, rfl, rfl, ?_⟩
  intro N hN
  refine iff_of_false (by simp [PacketTracker.reset]) ?_
  rintro ⟨j, hj, hjN⟩
  rw [List.mem_singleton.mp hj] at hjN
  omega

/-- **One arrival keeps the bits exact exactly when it avoids the last one.** -/
theorem Acknowledges.receivePacket {base : Nat} {got : List Nat} (h : Acknowledges got n t)
    (e : Nat × Time) (hspan : Spans (2 ^ 15) base (got ++ [e.1])) :
    (receivePacket t e).receivedAny = true ∧
    (receivePacket t e).recvAck = max e.1 n % u16Size ∧
    (BitsExact (got ++ [e.1]) (max e.1 n) (receivePacket t e).recvAckBits ↔
      AvoidsLastBit got e) := by
  obtain ⟨i, time⟩ := e
  obtain ⟨hn1, hn2⟩ := hspan n (List.mem_append_left _ h.newest.1)
  obtain ⟨hi1, hi2⟩ := hspan i (List.mem_append_right _ (List.mem_singleton_self i))
  rw [avoidsLastBit_iff h.newest]
  dsimp only [Netudp.receivePacket]
  rcases Nat.lt_or_ge n i with hlt | hle
  · rw [onPacketReceived_newer h.any h.ack hlt (by omega), Nat.max_eq_left hlt.le]
    refine ⟨h.any, rfl, ?_⟩
    rw [bitsExact_newer h.newest h.bits hlt]
    exact ⟨fun hne => ⟨hne, fun heq => absurd heq (by omega)⟩, And.left⟩
  · rw [onPacketReceived_older h.any h.ack hle (by omega), Nat.max_eq_right hle]
    have hbits := bitsExact_older h.bits (i := i)
    have hne : i ≠ n + 32 := by omega
    split
    · rename_i hin
      rw [if_pos hin] at hbits
      exact ⟨h.any, h.ack, by rw [hbits]; exact ⟨fun hc => ⟨hne, hc⟩, And.right⟩⟩
    · rename_i hin
      rw [if_neg hin] at hbits
      exact ⟨h.any, h.ack, by rw [hbits]; exact ⟨fun hc => ⟨hne, hc⟩, And.right⟩⟩

theorem acknowledges_run {base : Nat} (es : List (Nat × Time))
    (hspan : Spans (2 ^ 15) base (es.map Prod.fst))
    (hal : Along (fun before e => before ++ [e.1]) AvoidsLastBit [] es) (hne : es ≠ []) :
    ∃ n, Acknowledges (es.map Prod.fst) n (run receivePacket .reset es) := by
  induction es using List.reverseRecOn with
  | nil => exact absurd rfl hne
  | append_singleton es e ih =>
    rw [List.map_append] at hspan ⊢
    obtain ⟨hal, havoid, -⟩ := along_append.mp hal
    rw [run_collect, List.nil_append] at havoid
    rw [run_append]
    by_cases hes : es = []
    · subst hes
      exact ⟨e.1, acknowledges_first e⟩
    · obtain ⟨n, hack⟩ := ih (fun j hj => hspan j (List.mem_append_left _ hj)) hal hes
      obtain ⟨hany, hrecv, hbits⟩ := hack.receivePacket e hspan
      exact ⟨max e.1 n, newest_append hack.newest e.1, hany, hrecv, hbits.mpr havoid⟩

/-- The acknowledgement after the packets is exact. -/
def ExactAfter (es : List (Nat × Time)) : Prop :=
  ∀ now, AcksExactly (es.map Prod.fst) ((run receivePacket .reset es).buildAckFields now)

/-- After packets that avoided the last bit, the next acknowledgement is exact if and
only if the next packet avoids it too. -/
theorem exactAfter_concat_iff {base : Nat} (es : List (Nat × Time)) (e : Nat × Time)
    (hspan : Spans (2 ^ 15) base ((es ++ [e]).map Prod.fst))
    (hal : Along (fun before e => before ++ [e.1]) AvoidsLastBit [] es) :
    ExactAfter (es ++ [e]) ↔ AvoidsLastBit (es.map Prod.fst) e := by
  unfold ExactAfter
  rw [run_append]
  by_cases hes : es = []
  · subst hes
    have hfirst := acknowledges_first e
    refine iff_of_true ?_ (List.forall_mem_nil _)
    intro now
    exact (acksExactly_iff hspan hfirst.newest hfirst.ack now).mpr hfirst.bits
  · rw [List.map_append] at hspan ⊢
    obtain ⟨n, hack⟩ := acknowledges_run es
      (fun j hj => hspan j (List.mem_append_left _ hj)) hal hes
    obtain ⟨-, hrecv, hbits⟩ := hack.receivePacket e hspan
    have hiff := fun now => acksExactly_iff hspan (newest_append hack.newest e.1) hrecv now
    rw [← hbits]
    exact ⟨fun hex => (hiff 0).mp (hex 0), fun hb now => (hiff now).mpr hb⟩

/--
**When `ack_bits` is exact.**  For packets less than `2 ^ 15` apart, the acknowledgement
is exact after each of them if and only if none arrives exactly 32 past the newest
received so far, and one exactly 32 behind it only if it had arrived before.
-/
theorem ack_bits_exact_iff (base : Nat) (es : List (Nat × Time))
    (hspan : ∀ i ∈ es.map Prod.fst, base ≤ i ∧ i < base + 2 ^ 15) :
    (∀ pre, pre <+: es → pre ≠ [] → ∀ now, AcksExactly (pre.map Prod.fst)
        ((run receivePacket .reset pre).buildAckFields now)) ↔
      Along (fun before e => before ++ [e.1]) AvoidsLastBit [] es := by
  induction es using List.reverseRecOn with
  | nil =>
    refine iff_of_true ?_ trivial
    intro pre hpre hne
    exact absurd (List.prefix_nil.mp hpre) hne
  | append_singleton es e ih =>
    have hspan' : ∀ i ∈ es.map Prod.fst, base ≤ i ∧ i < base + 2 ^ 15 := by
      intro i hi
      exact hspan i (by rw [List.map_append]; exact List.mem_append_left _ hi)
    have hlast : Along (fun before e => before ++ [e.1]) AvoidsLastBit [] (es ++ [e]) ↔
        Along (fun before e => before ++ [e.1]) AvoidsLastBit [] es ∧
          AvoidsLastBit (es.map Prod.fst) e := by
      rw [along_append, run_collect, List.nil_append]
      simp [Along]
    rw [hlast, ← ih hspan']
    constructor
    · intro hex
      have hes := fun pre (hpre : pre <+: es) => hex pre (hpre.trans (List.prefix_append _ _))
      refine ⟨hes, ?_⟩
      rw [← exactAfter_concat_iff es e hspan ((ih hspan').mp hes)]
      exact hex _ List.prefix_rfl (by simp)
    · rintro ⟨hes, havoid⟩ pre hpre hne
      rcases List.prefix_concat_iff.mp hpre with heq | hold
      · rw [heq]
        exact (exactAfter_concat_iff es e hspan ((ih hspan').mp hes)).mpr havoid
      · exact hes pre hold hne

/-- Reordering, a gap and a copy, across the wrap of the sequence. -/
theorem ack_bits_exact_across_wrap :
    AcksExactly [65530, 65540, 65535, 65530]
      ((run receivePacket .reset [(65530, 1), (65540, 2), (65535, 3), (65530, 4)]).buildAckFields 5)
      :=
  (ack_bits_exact_iff 65530 [(65530, 1), (65540, 2), (65535, 3), (65530, 4)] (by decide)).mpr
    (by decide +kernel) _ List.prefix_rfl (by decide) 5

/-- Packet 32 clears every bit, though packet 0 was received and is the last one the
bits can name. -/
theorem ack_bits_lose_last :
    ¬ AcksExactly [0, 32] ((run receivePacket .reset [(0, 0), (32, 0)]).buildAckFields 0) := by
  rintro ⟨n, -, -, hbits⟩
  have hbit := (hbits 31 (by decide)).mpr ⟨0, by decide, by decide +kernel⟩
  exact absurd hbit (by decide +kernel)

end Netudp
