/-
Processing acknowledgements.

`process_acks` marks the packets its fields name, one after another, and then moves
`oldest_unacked` on.  A mark touches the one record whose sequence is the named one, and
reports a packet as newly acknowledged exactly when it sets that record's flag.
-/
import Netudp.Reliability.PacketTracker

namespace Netudp

open Lib

/-- The sequences acknowledged by the fields, in the order of `process_acks`. -/
def AckFields.named (fields : AckFields) : List Nat :=
  fields.ack :: (List.range 32).filterMap fun i =>
    if fields.ackBits.getLsbD i then some ((fields.ack + u16Size - (i + 1)) % u16Size) else none

theorem AckFields.mem_named {fields : AckFields} {seq : Nat} :
    seq ∈ fields.named ↔ seq = fields.ack ∨ ∃ N < 32, fields.ackBits.getLsbD N = true ∧
      seq = (fields.ack + u16Size - (N + 1)) % u16Size := by
  simp only [AckFields.named, List.mem_cons, List.mem_filterMap, List.mem_range,
    Option.ite_none_right_eq_some, Option.some.injEq]
  exact or_congr_right (exists_congr fun N => and_congr_right fun _ => and_congr_right fun _ => eq_comm)

namespace PacketTracker

variable {t : PacketTracker}

/-! ### Marking -/

/-- A mark, counted. -/
def countMark (acc : Nat × PacketTracker) (seq : Nat) : Nat × PacketTracker :=
  (if (acc.2.markAcked seq).1 then acc.1 + 1 else acc.1, (acc.2.markAcked seq).2)

/-- The record of `seq` is there and not marked. -/
def Open (t : PacketTracker) (seq : Nat) : Prop :=
  (t.sent.get seq).sequence = seq ∧ (t.sent.get seq).acked = false
deriving Decidable

/-- The tracker with the record of `seq` marked. -/
def marked (t : PacketTracker) (seq : Nat) : PacketTracker :=
  { t with sent := t.sent.set seq { t.sent.get seq with acked := true } }

theorem countMark_of_open (count : Nat) {seq : Nat} (h : t.Open seq) :
    countMark (count, t) seq = (count + 1, t.marked seq) := by
  simp [countMark, markAcked, if_pos (show _ ∧ _ from h), marked]

theorem countMark_of_not_open (count : Nat) {seq : Nat} (h : ¬ t.Open seq) :
    countMark (count, t) seq = (count, t) := by
  simp [countMark, markAcked, if_neg (show ¬ (_ ∧ _) from h)]

theorem markAcked_fst {seq : Nat} : (t.markAcked seq).1 = true ↔ t.Open seq := by
  simp only [markAcked, Open]
  split
  · rename_i h
    exact iff_of_true rfl h
  · rename_i h
    exact iff_of_false Bool.false_ne_true h

private theorem foldl_countMark_bits (fields : AckFields) (is : List Nat) :
    ∀ acc : Nat × PacketTracker,
      (is.filterMap fun i => if fields.ackBits.getLsbD i then
          some ((fields.ack + u16Size - (i + 1)) % u16Size) else none).foldl countMark acc
        = is.foldl (fun acc i => if fields.ackBits.getLsbD i then
            countMark acc ((fields.ack + u16Size - (i + 1)) % u16Size) else acc) acc := by
  induction is with
  | nil => intro acc; rfl
  | cons i is ih =>
    intro acc
    by_cases hbit : fields.ackBits.getLsbD i = true
    · simp only [List.filterMap_cons, hbit, if_true, List.foldl_cons, ih]
    · simp only [List.filterMap_cons, hbit, if_false, List.foldl_cons, ih, Bool.false_eq_true]

/-- `process_acks` marks what the fields name and moves the oldest sequence on. -/
theorem processAcks_eq (t : PacketTracker) (fields : AckFields) :
    t.processAcks fields =
      ((fields.named.foldl countMark (0, t)).1,
        (fields.named.foldl countMark (0, t)).2.advanceOldest u16Size) := by
  rw [AckFields.named, List.foldl_cons, foldl_countMark_bits]
  rfl

/-! ### What marking does to the records -/

/-- The record of a slot, marked if it is one of the named ones. -/
def markedIn (names : List Nat) (k : Nat) (record : SentPacketRecord) : SentPacketRecord :=
  { record with
    acked := record.acked || decide (record.sequence ∈ names ∧ record.sequence % 33 = k % 33) }

theorem markedIn_of_acked {names : List Nat} {k : Nat} {record : SentPacketRecord}
    (h : record.acked = true) : markedIn names k record = record := by
  cases record
  simp_all [markedIn]

theorem markedIn_of_not_named {names : List Nat} {k : Nat} {record : SentPacketRecord}
    (h : ¬ (record.sequence ∈ names ∧ record.sequence % 33 = k % 33)) :
    markedIn names k record = record := by
  simp only [markedIn, decide_eq_false h, Bool.or_false]

theorem countMark_get (acc : Nat × PacketTracker) (seq k : Nat) :
    (countMark acc seq).2.sent.get k = markedIn [seq] k (acc.2.sent.get k) := by
  obtain ⟨count, t⟩ := acc
  by_cases hsame : (t.sent.get k).sequence = seq ∧ k % 33 = seq % 33
  · -- The slot is the one of `seq`, and its record is that of `seq`.
    have hget : t.sent.get seq = t.sent.get k := (Table.get_congr _ hsame.2).symm
    cases hacked : (t.sent.get k).acked with
    | false =>
      rw [countMark_of_open count ⟨by rw [hget]; exact hsame.1, by rw [hget]; exact hacked⟩]
      simp only [marked, Table.get_set, hget, markedIn, List.mem_singleton, hsame.1, hsame.2,
        and_self, decide_true, Bool.or_true, if_true]
    | true =>
      rw [countMark_of_not_open count (fun hopen => by
        rw [Open, hget, hacked] at hopen
        exact Bool.false_ne_true hopen.2.symm), markedIn_of_acked hacked]
  · rw [markedIn_of_not_named (fun hnamed => hsame
      ⟨List.mem_singleton.mp hnamed.1, by rw [← List.mem_singleton.mp hnamed.1]; exact hnamed.2.symm⟩)]
    by_cases hopen : t.Open seq
    · have hne : ¬ k % 33 = seq % 33 := fun heq =>
        hsame ⟨by rw [Table.get_congr _ heq]; exact hopen.1, heq⟩
      rw [countMark_of_open count hopen]
      exact Table.get_set_of_mod_ne _ _ hne
    · rw [countMark_of_not_open count hopen]

/-- **A record is marked exactly when it is named in its own slot.** -/
theorem foldl_countMark_get (names : List Nat) (k : Nat) : ∀ acc : Nat × PacketTracker,
    (names.foldl countMark acc).2.sent.get k = markedIn names k (acc.2.sent.get k) := by
  induction names with
  | nil => intro acc; simp [markedIn]
  | cons seq names ih =>
    intro acc
    rw [List.foldl_cons, ih, countMark_get]
    simp only [markedIn, List.mem_cons, List.not_mem_nil, or_false, Bool.or_assoc,
      or_and_right, Bool.decide_or]

/-! ### What marking and moving on leave alone -/

/-- The counters both sides of a tracker keep, but for the oldest sequence. -/
structure SameCounters (t t' : PacketTracker) : Prop where
  sendSequence : t'.sendSequence = t.sendSequence
  recvAck : t'.recvAck = t.recvAck
  recvAckBits : t'.recvAckBits = t.recvAckBits
  receivedAny : t'.receivedAny = t.receivedAny

theorem SameCounters.trans {t t' t'' : PacketTracker} (h : SameCounters t t')
    (h' : SameCounters t' t'') : SameCounters t t'' :=
  ⟨h'.sendSequence.trans h.sendSequence, h'.recvAck.trans h.recvAck,
    h'.recvAckBits.trans h.recvAckBits, h'.receivedAny.trans h.receivedAny⟩

theorem countMark_counters (acc : Nat × PacketTracker) (seq : Nat) :
    SameCounters acc.2 (countMark acc seq).2 ∧
      (countMark acc seq).2.oldestUnacked = acc.2.oldestUnacked := by
  by_cases hopen : acc.2.Open seq
  · rw [countMark_of_open acc.1 hopen]
    exact ⟨⟨rfl, rfl, rfl, rfl⟩, rfl⟩
  · rw [countMark_of_not_open acc.1 hopen]
    exact ⟨⟨rfl, rfl, rfl, rfl⟩, rfl⟩

theorem foldl_countMark_counters (names : List Nat) : ∀ acc : Nat × PacketTracker,
    SameCounters acc.2 (names.foldl countMark acc).2 ∧
      (names.foldl countMark acc).2.oldestUnacked = acc.2.oldestUnacked := by
  induction names with
  | nil => exact fun acc => ⟨⟨rfl, rfl, rfl, rfl⟩, rfl⟩
  | cons seq names ih =>
    intro acc
    have hmark := countMark_counters acc seq
    have hrest := ih (countMark acc seq)
    exact ⟨hmark.1.trans hrest.1, hrest.2.trans hmark.2⟩

theorem advanceOldest_counters : ∀ (fuel : Nat) (t : PacketTracker),
    SameCounters t (t.advanceOldest fuel) ∧ (t.advanceOldest fuel).sent = t.sent := by
  intro fuel
  induction fuel with
  | zero => exact fun t => ⟨⟨rfl, rfl, rfl, rfl⟩, rfl⟩
  | succ fuel ih =>
    intro t
    simp only [advanceOldest]
    split
    · exact ⟨⟨rfl, rfl, rfl, rfl⟩, rfl⟩
    · obtain ⟨hsame, hsent⟩ :=
        ih { t with oldestUnacked := (t.oldestUnacked + 1) % u16Size }
      exact ⟨⟨hsame.sendSequence, hsame.recvAck, hsame.recvAckBits, hsame.receivedAny⟩, hsent⟩

/-- What `process_acks` leaves of the counters, and what it does to the records. -/
theorem processAcks_counters (t : PacketTracker) (fields : AckFields) :
    SameCounters t (t.processAcks fields).2 ∧
      ∀ k, (t.processAcks fields).2.sent.get k = markedIn fields.named k (t.sent.get k) := by
  rw [processAcks_eq]
  have hmarks := (foldl_countMark_counters fields.named (0, t)).1
  have hmove := advanceOldest_counters u16Size (fields.named.foldl countMark (0, t)).2
  refine ⟨hmarks.trans hmove.1, ?_⟩
  intro k
  rw [hmove.2, foldl_countMark_get]

/-! ### Acknowledged and open records -/

theorem isAcked_iff {seq : Nat} :
    t.isAcked seq = true ↔ (t.sent.get seq).acked = true ∧ (t.sent.get seq).sequence = seq := by
  simp only [isAcked, Bool.and_eq_true, beq_iff_eq]

theorem processAcks_isAcked {fields : AckFields} {seq : Nat} :
    (t.processAcks fields).2.isAcked seq = true ↔
      t.isAcked seq = true ∨ seq ∈ fields.named ∧ t.Open seq := by
  rw [isAcked_iff, isAcked_iff, (processAcks_counters t fields).2, Open]
  simp only [markedIn, Bool.or_eq_true, decide_eq_true_eq]
  constructor
  · rintro ⟨hacked | ⟨hnamed, -⟩, hseq⟩
    · exact Or.inl ⟨hacked, hseq⟩
    · cases hacked : (t.sent.get seq).acked with
      | true => exact Or.inl ⟨rfl, hseq⟩
      | false => exact Or.inr ⟨by rwa [hseq] at hnamed, hseq, rfl⟩
  · rintro (⟨hacked, hseq⟩ | ⟨hnamed, hseq, -⟩)
    · exact ⟨Or.inl hacked, hseq⟩
    · exact ⟨Or.inr ⟨by rwa [hseq], by rw [hseq]⟩, hseq⟩

theorem processAcks_open {fields : AckFields} {seq : Nat} :
    (t.processAcks fields).2.Open seq ↔ t.Open seq ∧ seq ∉ fields.named := by
  rw [Open, Open, (processAcks_counters t fields).2]
  simp only [markedIn, Bool.or_eq_false_iff, decide_eq_false_iff_not]
  constructor
  · rintro ⟨hseq, hacked, hnot⟩
    exact ⟨⟨hseq, hacked⟩, fun hnamed => hnot ⟨by rwa [hseq], by rw [hseq]⟩⟩
  · rintro ⟨⟨hseq, hacked⟩, hnot⟩
    exact ⟨hseq, hacked, fun hnamed => hnot (by rw [hseq] at hnamed; exact hnamed.1)⟩

theorem marked_open {seq s : Nat} (h : t.Open seq) :
    (t.marked seq).Open s ↔ t.Open s ∧ s ≠ seq := by
  simp only [Open, marked, Table.get_set]
  by_cases hsame : s % 33 = seq % 33
  · rw [if_pos hsame, Table.get_congr _ hsame]
    refine iff_of_false (by simp) ?_
    rintro ⟨⟨hseq, -⟩, hne⟩
    exact hne (hseq.symm.trans h.1)
  · rw [if_neg hsame]
    exact ⟨fun hs => ⟨hs, fun heq => hsame (by rw [heq])⟩, And.left⟩

/-- Marks count the open records they name, each once. -/
theorem foldl_countMark_count (names : List Nat) : ∀ (count : Nat) (t : PacketTracker),
    ∃ new : List Nat, (names.foldl countMark (count, t)).1 = count + new.length ∧ new.Nodup ∧
      ∀ s, s ∈ new ↔ s ∈ names ∧ t.Open s := by
  induction names with
  | nil => exact fun count t => ⟨[], rfl, List.nodup_nil, by simp⟩
  | cons seq names ih =>
    intro count t
    rw [List.foldl_cons]
    by_cases hopen : t.Open seq
    · rw [countMark_of_open count hopen]
      obtain ⟨new, hcount, hnodup, hmem⟩ := ih (count + 1) (t.marked seq)
      refine ⟨seq :: new, ?_, List.nodup_cons.mpr ⟨?_, hnodup⟩, ?_⟩
      · rw [hcount, List.length_cons]
        omega
      · intro hseq
        exact ((marked_open hopen).mp ((hmem seq).mp hseq).2).2 rfl
      · intro s
        simp only [List.mem_cons, hmem, marked_open hopen]
        by_cases heq : s = seq
        · simp [heq, hopen]
        · simp [heq]
    · rw [countMark_of_not_open count hopen]
      obtain ⟨new, hcount, hnodup, hmem⟩ := ih count t
      refine ⟨new, hcount, hnodup, ?_⟩
      intro s
      rw [hmem, List.mem_cons]
      constructor
      · exact fun h => ⟨Or.inr h.1, h.2⟩
      · rintro ⟨rfl | hs, hso⟩
        · exact absurd hso hopen
        · exact ⟨hs, hso⟩

/-- **`process_acks` returns the number of open records its fields name.** -/
theorem processAcks_count (t : PacketTracker) (fields : AckFields) :
    ∃ new : List Nat, (t.processAcks fields).1 = new.length ∧ new.Nodup ∧
      ∀ s, s ∈ new ↔ s ∈ fields.named ∧ t.Open s := by
  rw [processAcks_eq]
  obtain ⟨new, hcount, hrest⟩ := foldl_countMark_count fields.named 0 t
  exact ⟨new, by rw [hcount, Nat.zero_add], hrest⟩

theorem sendPacket_isAcked {time : Time} {s : Nat} :
    (t.sendPacket time).isAcked s = true ↔
      s % 33 ≠ t.sendSequence % 33 ∧ t.isAcked s = true := by
  simp only [isAcked_iff, sendPacket, Table.get_set]
  by_cases hsame : s % 33 = t.sendSequence % 33
  · simp [hsame]
  · simp [hsame]

theorem sendPacket_open {time : Time} {s : Nat} :
    (t.sendPacket time).Open s ↔
      s = t.sendSequence ∨ s % 33 ≠ t.sendSequence % 33 ∧ t.Open s := by
  simp only [Open, sendPacket, Table.get_set]
  by_cases hsame : s % 33 = t.sendSequence % 33
  · rw [if_pos hsame]
    constructor
    · exact fun h => Or.inl h.1.symm
    · rintro (heq | ⟨hne, -⟩)
      · exact ⟨heq.symm, rfl⟩
      · exact absurd hsame hne
  · have hne : s ≠ t.sendSequence := fun heq => hsame (by rw [heq])
    simp [hsame, hne]

theorem onPacketReceived_sent (t : PacketTracker) (seq : Nat) (time : Time) :
    (t.onPacketReceived seq time).sent = t.sent ∧
      (t.onPacketReceived seq time).sendSequence = t.sendSequence := by
  simp only [onPacketReceived]
  split_ifs <;> exact ⟨rfl, rfl⟩

end PacketTracker

end Netudp
