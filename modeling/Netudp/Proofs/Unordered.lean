/-
Duplicates on a reliable-unordered channel.

Both packet handlers act on a RELIABLE_DATA frame through `onReliableData`, which on an
unordered channel asks `is_received_unordered` and then marks.  The mark remembers, for
each residue modulo 64, the last message of that residue; the ones before it are
forgotten.  So a copy is recognised exactly when no other message of its residue has
arrived since the message it copies.
-/
import Netudp.Client.Receive
import Netudp.Proofs.Link
import Netudp.Proofs.Reassembly

namespace Netudp

open Lib

variable {Key : Type}

/-! ### The system -/

/-- An unordered channel, and the messages it has let through, by their number in the
sender's stream. -/
structure UnorderedReceiver where
  state : ReliableChannelState
  delivered : List Nat

/-- A copy of message `i` arrives: check, then mark. -/
def arriveUnordered (r : UnorderedReceiver) (i : Nat) : UnorderedReceiver :=
  if r.state.isReceivedUnordered (i % u16Size) then r
  else ⟨r.state.markReceivedUnordered (i % u16Size), r.delivered ++ [i]⟩

/-- A RELIABLE_DATA frame with message `i` reaches channel `ch` of a connection; what the
frames have released so far is collected. -/
def receiveUnordered (m : Nat → Bytes) (ch : Nat) (r : List DeliveredMessage × Connection Key)
    (i : Nat) : List DeliveredMessage × Connection Key :=
  let (msgs, c) := r.2.onReliableData ch (i % u16Size) (m i)
  (r.1 ++ msgs, c)

/-- Message `i` as its frame releases it. -/
def unorderedMessage (m : Nat → Bytes) (ch i : Nat) : DeliveredMessage :=
  ⟨(m i).take mtu, ch, i % u16Size, true⟩

/-- A message that has arrived before is the last one of its residue to have arrived. -/
def RepeatsLastOfSlot (before : List Nat) (i : Nat) : Prop :=
  i ∈ before → (before.filter fun j => j % 64 = i % 64).getLast? = some i
deriving Decidable

/-! ### What the table remembers -/

/-- The last message of each residue is the one its slot holds. -/
def RemembersLast (before : List Nat) (st : ReliableChannelState) : Prop :=
  ∀ k, match (before.filter fun j => j % 64 = k % 64).getLast? with
    | none => (st.recvBuffer.get k).valid = false
    | some j => (st.recvBuffer.get k).valid = true ∧ (st.recvBuffer.get k).sequence = j % u16Size

theorem remembersLast_reset : RemembersLast [] .reset := fun _ => rfl

variable {before : List Nat} {st : ReliableChannelState} {base i : Nat}

/-- **A copy is recognised exactly when it repeats the last message of its residue.** -/
theorem isReceivedUnordered_iff (h : RemembersLast before st) (hspan : Spans (2 ^ 15) base (before ++ [i])) :
    st.isReceivedUnordered (i % u16Size) = true ↔
      (before.filter fun j => j % 64 = i % 64).getLast? = some i := by
  have hget : st.recvBuffer.get (i % u16Size) = st.recvBuffer.get i :=
    Table.get_congr _ (mod_u16Size_mod i)
  have hslot := h i
  unfold ReliableChannelState.isReceivedUnordered
  rw [hget]
  cases hlast : (before.filter fun j => j % 64 = i % 64).getLast? with
  | none =>
    rw [hlast] at hslot
    simp [hslot]
  | some j =>
    rw [hlast] at hslot
    have hj : j ∈ before := List.mem_of_mem_filter (List.mem_of_getLast? hlast)
    simp only [hslot.1, hslot.2, Bool.true_and, beq_iff_eq, Option.some.injEq]
    constructor
    · intro hmod
      exact hspan.eq_of_mod (by decide) (List.mem_append_left _ hj) (by simp) hmod
    · rintro rfl
      rfl

theorem RemembersLast.mark (h : RemembersLast before st) (i : Nat) :
    RemembersLast (before ++ [i]) (st.markReceivedUnordered (i % u16Size)) := by
  intro k
  simp only [ReliableChannelState.markReceivedUnordered, Table.get_set, mod_u16Size_mod,
    List.filter_append]
  by_cases hsame : k % 64 = i % 64
  · simp [hsame]
  · have hne : ¬ i % 64 = k % 64 := fun heq => hsame heq.symm
    simpa [hsame, hne] using h k

theorem RemembersLast.again (h : RemembersLast before st)
    (hlast : (before.filter fun j => j % 64 = i % 64).getLast? = some i) :
    RemembersLast (before ++ [i]) st := by
  intro k
  have hslot := h k
  rw [List.filter_append]
  by_cases hsame : i % 64 = k % 64
  · rw [← hsame, hlast] at hslot
    simpa [hsame] using hslot
  · simpa [hsame] using hslot

/-! ### Runs -/

theorem arriveUnordered_eq {d : List Nat} (h : RemembersLast before st)
    (hspan : Spans (2 ^ 15) base (before ++ [i])) :
    arriveUnordered ⟨st, d⟩ i =
      if (before.filter fun j => j % 64 = i % 64).getLast? = some i then ⟨st, d⟩
      else ⟨st.markReceivedUnordered (i % u16Size), d ++ [i]⟩ := by
  simp only [arriveUnordered, isReceivedUnordered_iff h hspan]

/-- Everything that has arrived has been let through, and a message comes through a
second time as soon as a copy arrives that does not repeat the last of its residue. -/
theorem delivered_nodup_iff (es : List Nat) :
    ∀ {before d : List Nat} {st : ReliableChannelState}, RemembersLast before st →
      Spans (2 ^ 15) base (before ++ es) → (∀ j, j ∈ d ↔ j ∈ before) →
      ((run arriveUnordered ⟨st, d⟩ es).delivered.Nodup ↔
        d.Nodup ∧ Along (fun before i => before ++ [i]) RepeatsLastOfSlot before es) := by
  induction es with
  | nil =>
    intro before d st _ _ _
    simp [Along]
  | cons i es ih =>
    intro before d st h hspan hmem
    have hspan' : Spans (2 ^ 15) base (before ++ [i] ++ es) := by rwa [← List.append_cons]
    have hfirst : Spans (2 ^ 15) base (before ++ [i]) := fun j hj =>
      hspan' j (List.mem_append_left _ hj)
    rw [run_cons, arriveUnordered_eq h hfirst, Along]
    by_cases hlast : (before.filter fun j => j % 64 = i % 64).getLast? = some i
    · have hi : i ∈ before := List.mem_of_mem_filter (List.mem_of_getLast? hlast)
      have hmem' : ∀ j, j ∈ d ↔ j ∈ before ++ [i] := by
        intro j
        rw [hmem, List.mem_append, List.mem_singleton]
        constructor
        · exact Or.inl
        · rintro (hj | rfl)
          · exact hj
          · exact hi
      rw [if_pos hlast, ih (h.again hlast) hspan' hmem']
      simp [RepeatsLastOfSlot, hlast]
    · have hmem' : ∀ j, j ∈ d ++ [i] ↔ j ∈ before ++ [i] := by
        intro j
        simp only [List.mem_append, hmem]
      rw [if_neg hlast, ih (h.mark i) hspan' hmem', List.nodup_append_comm]
      simp only [List.singleton_append, List.nodup_cons, hmem, RepeatsLastOfSlot, hlast,
        imp_false, and_assoc]
      tauto

/-- Only what arrives is let through. -/
theorem mem_of_mem_delivered (es : List Nat) :
    ∀ {r : UnorderedReceiver} {j : Nat}, j ∈ (run arriveUnordered r es).delivered →
      j ∈ r.delivered ∨ j ∈ es := by
  induction es with
  | nil => intro r j hj; exact Or.inl hj
  | cons i es ih =>
    intro r j hj
    rcases ih hj with hold | hnew
    · unfold arriveUnordered at hold
      split at hold
      · exact Or.inl hold
      · rcases List.mem_append.mp hold with hold' | hi
        · exact Or.inl hold'
        · exact Or.inr (List.mem_cons.mpr (Or.inl (List.mem_singleton.mp hi)))
    · exact Or.inr (List.mem_cons_of_mem _ hnew)

/-! ### The packet handlers -/

/-- A RELIABLE_DATA frame of an unordered channel is the check-then-mark pair. -/
theorem receiveUnordered_eq {c : Connection Key} {ch : Nat} (m : Nat → Bytes)
    (out : List DeliveredMessage) (i : Nat)
    (htype : (c.ch ch).config.type = .reliableUnordered) :
    receiveUnordered m ch (out, c) i =
      if (c.rs ch).isReceivedUnordered (i % u16Size) then (out, c)
      else
        (out ++ [unorderedMessage m ch i],
          c.setRs ch ((c.rs ch).markReceivedUnordered (i % u16Size))) := by
  simp only [receiveUnordered, Connection.onReliableData, htype]
  split
  · rw [List.append_nil]
  · rfl

/-- The frames of an unordered channel release what its check-then-mark pair lets
through. -/
theorem receiveUnordered_run (m : Nat → Bytes) (ch : Nat) (es : List Nat) :
    ∀ {c : Connection Key} {out : List DeliveredMessage} {d : List Nat},
      (c.ch ch).config.type = .reliableUnordered →
      out.map (·.sequence) = d.map (· % u16Size) →
      (run (receiveUnordered m ch) (out, c) es).1.map (·.sequence)
        = (run arriveUnordered ⟨c.rs ch, d⟩ es).delivered.map (· % u16Size) := by
  induction es with
  | nil =>
    intro c out d _ hout
    exact hout
  | cons i es ih =>
    intro c out d htype hout
    rw [run_cons, run_cons, receiveUnordered_eq m out i htype, arriveUnordered]
    by_cases hrec : (c.rs ch).isReceivedUnordered (i % u16Size) = true
    · rw [if_pos hrec, if_pos hrec]
      exact ih htype hout
    · rw [if_neg hrec, if_neg hrec]
      have hrs : (c.setRs ch ((c.rs ch).markReceivedUnordered (i % u16Size))).rs ch
          = (c.rs ch).markReceivedUnordered (i % u16Size) := Table.get_set_self _ _ _
      have hout' : (out ++ [unorderedMessage m ch i]).map (·.sequence)
          = (d ++ [i]).map (· % u16Size) := by
        rw [List.map_append, List.map_append, hout]
        rfl
      have hnext := ih
        (c := c.setRs ch ((c.rs ch).markReceivedUnordered (i % u16Size))) htype hout'
      rw [hrs] at hnext
      exact hnext

/--
**When reliable-unordered delivery is at most once.**  On a fresh reliable-unordered
channel, whatever is duplicated and reordered among messages less than `2 ^ 15` apart,
no message comes through twice if and only if every copy that arrives repeats the last
message of its residue modulo 64.
-/
theorem unordered_at_most_once_iff (c : Connection Key) (ch : Nat) (m : Nat → Bytes) (base : Nat)
    (es : List Nat) (htype : (c.ch ch).config.type = .reliableUnordered)
    (hfresh : c.rs ch = .reset) (hspan : ∀ i ∈ es, base ≤ i ∧ i < base + 2 ^ 15) :
    ((run (receiveUnordered m ch) ([], c) es).1.map (·.sequence)).Nodup ↔
      Along (fun before i => before ++ [i]) RepeatsLastOfSlot [] es := by
  have hspan' : Spans (2 ^ 15) base es := hspan
  have hiff := delivered_nodup_iff es (d := []) remembersLast_reset
    (show Spans (2 ^ 15) base ([] ++ es) from hspan) (fun _ => Iff.rfl)
  have hmem : ∀ j ∈ (run arriveUnordered ⟨.reset, []⟩ es).delivered, j ∈ es := by
    intro j hj
    rcases mem_of_mem_delivered es hj with hnone | hj'
    · exact absurd hnone (List.not_mem_nil)
    · exact hj'
  rw [receiveUnordered_run m ch es (d := []) htype rfl, hfresh]
  constructor
  · intro hnodup
    exact (hiff.mp (List.Nodup.of_map _ hnodup)).2
  · intro hal
    refine List.Nodup.map_on ?_ (hiff.mpr ⟨List.nodup_nil, hal⟩)
    intro i hi j hj hmod
    exact hspan'.eq_of_mod (by decide) (hmem i hi) (hmem j hj) hmod

/-- A connection whose only channel is reliable-unordered. -/
def unorderedConnection : Connection Nat :=
  (Connection.idle toyCipher).setCh 0 { config := { type := .reliableUnordered } }

/-- Copies of 0 and 1, and message 64 once nothing of its residue is repeated any more. -/
theorem unordered_at_most_once_reordered :
    ((run (receiveUnordered (fun i => [UInt8.ofNat i]) 0) ([], unorderedConnection)
      [0, 1, 0, 1, 64, 1, 64]).1.map (·.sequence)).Nodup :=
  (unordered_at_most_once_iff unorderedConnection 0 (fun i => [UInt8.ofNat i]) 0
    [0, 1, 0, 1, 64, 1, 64] rfl rfl (by decide)).mpr (by decide)

/-- Message 64 makes the receiver forget message 0, whose copy then comes through. -/
theorem unordered_delivers_twice :
    (run (receiveUnordered (fun i => [UInt8.ofNat i]) 0) ([], unorderedConnection)
      [0, 64, 0]).1.map (·.sequence) = [0, 64, 0] := by
  decide +kernel

end Netudp
