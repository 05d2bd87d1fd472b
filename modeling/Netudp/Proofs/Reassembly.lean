/-
Reliable-ordered reassembly.

The receiver has delivered the messages below `k`.  Its table holds messages of the
window `[k, k + 64)` only, each in the slot of its own sequence, so no two of them
can meet in a slot, and the message found in the slot of `k` is message `k`.  The
sequence numbers on the wire are residues modulo `2 ^ 16`; what arrives is never
`2 ^ 15` away from `k`, so their signed differences are the true ones.
-/
import Netudp.Lib.Run
import Netudp.Reliability.ReliableChannel

namespace Netudp

open Lib

variable {m : Nat → Bytes} {st : ReliableChannelState} {k : Nat}

/-! ### The system -/

/-- Message `j` of the stream, as the callback of `deliver_ordered` sees it. -/
def streamMessage (m : Nat → Bytes) (j : Nat) : Bytes × Nat :=
  (m j, j % u16Size)

/-- A channel, and what it has delivered so far. -/
structure OrderedReceiver where
  state : ReliableChannelState
  delivered : List (Bytes × Nat)

def OrderedReceiver.start : OrderedReceiver := ⟨.reset, []⟩

/-- A copy of message `i` arrives: it is buffered, and if it was accepted whatever
has become contiguous is delivered. -/
def arriveOrdered (m : Nat → Bytes) (r : OrderedReceiver) (i : Nat) : OrderedReceiver :=
  match r.state.bufferReceivedOrdered (i % u16Size) (m i) with
  | (false, st) => { r with state := st }
  | (true, st) =>
    let (msgs, st) := st.deliverOrdered
    ⟨st, r.delivered ++ msgs⟩

/-- Message `i` is less than `2 ^ 15` away from the number of messages delivered. -/
def NearNext (r : OrderedReceiver) (i : Nat) : Prop :=
  |(i : Int) - r.delivered.length| < 2 ^ 15
deriving Decidable

/-! ### The window -/

/-- `recvSeq` counts to `k`, and every valid slot holds a message of the window. -/
structure Reassembles (m : Nat → Bytes) (st : ReliableChannelState) (k : Nat) : Prop where
  next : st.recvSeq = k % u16Size
  slot : ∀ s, (st.recvBuffer.get s).valid = true → ∃ j, k ≤ j ∧ j < k + 64 ∧ j % 64 = s % 64 ∧
    (st.recvBuffer.get s).sequence = j % u16Size ∧ (st.recvBuffer.get s).data = m j

theorem reset_reassembles : Reassembles m .reset 0 where
  next := rfl
  slot := by
    intro s hs
    exact absurd hs Bool.false_ne_true

theorem mod_u16Size_mod (j : Nat) : j % u16Size % 64 = j % 64 := by
  unfold u16Size
  omega

theorem Reassembles.slot_eq (h : Reassembles m st k) {i : Nat} (hlow : k ≤ i)
    (hhigh : i < k + 64) (hvalid : (st.recvBuffer.get i).valid = true) :
    (st.recvBuffer.get i).sequence = i % u16Size ∧ (st.recvBuffer.get i).data = m i := by
  obtain ⟨j, hj, hj', hres, hseq, hdata⟩ := h.slot i hvalid
  have hji : j = i := by
    by_contra hne
    exact mod_ne_of_near hne (by omega) (by omega) hres
  rw [hji] at hseq hdata
  exact ⟨hseq, hdata⟩

theorem serialDiff_next (h : Reassembles m st k) {i : Nat} (hnear : |(i : Int) - k| < 2 ^ 15) :
    serialDiff u16Size (i % u16Size) st.recvSeq = i - k := by
  rw [h.next]
  rw [abs_lt] at hnear
  apply serialDiff_mod
  · show -(65536 : Int) ≤ _
    omega
  · show _ < (65536 : Int)
    omega

theorem Reassembles.insert (h : Reassembles m st k) {i : Nat} (hlow : k ≤ i) (hhigh : i < k + 64) :
    Reassembles m
      { st with recvBuffer := st.recvBuffer.set (i % u16Size) ⟨i % u16Size, m i, true⟩ } k := by
  refine ⟨h.next, ?_⟩
  intro s hs
  simp only [Table.get_set, mod_u16Size_mod] at hs ⊢
  by_cases hsame : s % 64 = i % 64
  · rw [if_pos hsame]
    exact ⟨i, hlow, hhigh, hsame.symm, rfl, rfl⟩
  · rw [if_neg hsame] at hs ⊢
    exact h.slot s hs

/-- **What buffering does to an arrival near `k`**: a message of the window that is
not there yet is stored, and everything else is refused without a change. -/
theorem bufferReceivedOrdered_eq (h : Reassembles m st k) (hm : ∀ i, (m i).length ≤ mtu) {i : Nat}
    (hnear : |(i : Int) - k| < 2 ^ 15) :
    st.bufferReceivedOrdered (i % u16Size) (m i) =
      if k ≤ i ∧ i < k + 64 ∧ (st.recvBuffer.get i).valid = false then
        (true, { st with recvBuffer := st.recvBuffer.set (i % u16Size) ⟨i % u16Size, m i, true⟩ })
      else (false, st) := by
  have hget : st.recvBuffer.get (i % u16Size) = st.recvBuffer.get i :=
    Table.get_congr _ (mod_u16Size_mod i)
  simp only [ReliableChannelState.bufferReceivedOrdered, serialDiff_next h hnear, hget,
    List.take_of_length_le (hm i)]
  by_cases hlow : k ≤ i
  · rw [if_neg (show ¬ ((i : Int) - k < 0) by omega)]
    by_cases hhigh : i < k + 64
    · rw [if_neg (show ¬ ((reliableBufferSize : Int) ≤ (i : Int) - k) by
        show ¬ ((64 : Int) ≤ _)
        omega)]
      cases hvalid : (st.recvBuffer.get i).valid with
      | true =>
        -- The slot is taken, and only message `i` itself can have taken it.
        rw [if_pos ⟨rfl, (h.slot_eq hlow hhigh hvalid).1⟩, if_neg (by simp)]
      | false => rw [if_neg (by simp), if_pos ⟨hlow, hhigh, rfl⟩]
    · rw [if_pos (show (reliableBufferSize : Int) ≤ (i : Int) - k by
        show (64 : Int) ≤ _
        omega), if_neg (fun hc => hhigh hc.2.1)]
  · rw [if_pos (show (i : Int) - k < 0 by omega), if_neg (fun hc => hlow hc.1)]

/-! ### Delivery -/

theorem deliverable_iff (h : Reassembles m st k) :
    st.deliverable = true ↔ (st.recvBuffer.get k).valid = true := by
  have hget : st.recvBuffer.get st.recvSeq = st.recvBuffer.get k := by
    rw [h.next]
    exact Table.get_congr _ (mod_u16Size_mod k)
  simp only [ReliableChannelState.deliverable, hget, Bool.and_eq_true, beq_iff_eq]
  constructor
  · intro hd
    exact hd.1
  · intro hvalid
    refine ⟨hvalid, ?_⟩
    rw [h.next]
    exact (h.slot_eq (Nat.le_refl k) (by omega) hvalid).1

/-- One round delivers message `k` and moves the window by one. -/
theorem deliverOne_reassembles (h : Reassembles m st k) (hd : st.deliverable = true) :
    st.deliverOne.1 = streamMessage m k ∧ Reassembles m st.deliverOne.2 (k + 1) := by
  have hvalid := (deliverable_iff h).mp hd
  have hmod : st.recvSeq % 64 = k % 64 := by rw [h.next, mod_u16Size_mod]
  have hget : st.recvBuffer.get st.recvSeq = st.recvBuffer.get k := Table.get_congr _ hmod
  refine ⟨?_, ?_, ?_⟩
  · show ((st.recvBuffer.get st.recvSeq).data, st.recvSeq) = _
    rw [hget, (h.slot_eq (Nat.le_refl k) (by omega) hvalid).2, h.next]
    rfl
  · show (st.recvSeq + 1) % u16Size = (k + 1) % u16Size
    rw [h.next, Nat.mod_add_mod]
  · intro s hs
    simp only [ReliableChannelState.deliverOne, Table.get_set, hmod] at hs ⊢
    by_cases hsame : s % 64 = k % 64
    · rw [if_pos hsame] at hs
      exact absurd hs Bool.false_ne_true
    · rw [if_neg hsame] at hs ⊢
      obtain ⟨j, hj, hj', hres, hrest⟩ := h.slot s hs
      -- The slot is not the one just freed, so its message is not `k`.
      exact ⟨j, by omega, by omega, hres, hrest⟩

/-- The loop delivers consecutive messages from `k` on. -/
theorem deliverLoop_reassembles : ∀ (fuel : Nat) {st : ReliableChannelState} {k : Nat},
    Reassembles m st k → ∃ n,
      (ReliableChannelState.deliverLoop fuel st).1
        = (List.range n).map (fun j => streamMessage m (k + j)) ∧
      Reassembles m (ReliableChannelState.deliverLoop fuel st).2 (k + n) ∧
      (0 < fuel → st.deliverable = true → 0 < n) := by
  intro fuel
  induction fuel with
  | zero =>
    intro st k h
    exact ⟨0, rfl, h, fun hpos => absurd hpos (Nat.lt_irrefl 0)⟩
  | succ fuel ih =>
    intro st k h
    unfold ReliableChannelState.deliverLoop
    by_cases hd : st.deliverable = true
    · obtain ⟨hmsg, hnext⟩ := deliverOne_reassembles h hd
      obtain ⟨n, hmsgs, hlast, -⟩ := ih hnext
      rw [if_pos hd]
      refine ⟨n + 1, ?_, ?_, fun _ _ => Nat.succ_pos n⟩
      · simp only [hmsg, hmsgs, List.range_succ_eq_map, List.map_cons, List.map_map,
          Nat.add_zero]
        congr 1
        refine List.map_congr_left fun j _ => ?_
        show streamMessage m (k + 1 + j) = streamMessage m (k + (j + 1))
        rw [show k + 1 + j = k + (j + 1) by omega]
      · rw [show k + (n + 1) = k + 1 + n by omega]
        exact hlast
    · rw [if_neg hd]
      exact ⟨0, rfl, h, fun _ hc => absurd hc hd⟩

theorem deliverLoop_once (fuel : Nat) (hdue : st.deliverable = true)
    (hstop : ¬ st.deliverOne.2.deliverable = true) :
    st.deliverLoop (fuel + 2) = ([st.deliverOne.1], st.deliverOne.2) := by
  simp only [ReliableChannelState.deliverLoop, if_pos hdue, if_neg hstop]

/-- Into an empty window, the message due next is delivered at once, and the window is empty
again. -/
theorem deliverOrdered_next (h : Reassembles m st k)
    (hempty : ∀ s, (st.recvBuffer.get s).valid = false) :
    let inserted := { st with
      recvBuffer := st.recvBuffer.set (k % u16Size) ⟨k % u16Size, m k, true⟩ }
    inserted.deliverOrdered.1 = [streamMessage m k] ∧
      Reassembles m inserted.deliverOrdered.2 (k + 1) ∧
      ∀ s, (inserted.deliverOrdered.2.recvBuffer.get s).valid = false := by
  intro inserted
  have hins : Reassembles m inserted k := h.insert (Nat.le_refl k) (by omega)
  have hdue : inserted.deliverable = true := by
    rw [deliverable_iff hins, Table.get_set, mod_u16Size_mod, if_pos rfl]
  obtain ⟨hmsg, hnext⟩ := deliverOne_reassembles hins hdue
  have hfree : ∀ s, (inserted.deliverOne.2.recvBuffer.get s).valid = false := by
    intro s
    have hmod : inserted.recvSeq % 64 = k % 64 := by rw [hins.next, mod_u16Size_mod]
    simp only [ReliableChannelState.deliverOne, inserted, Table.get_set] at hmod ⊢
    rw [hmod, mod_u16Size_mod]
    split
    · rfl
    · exact hempty s
  have hstop : ¬ inserted.deliverOne.2.deliverable = true := by
    rw [deliverable_iff hnext, hfree]
    exact Bool.false_ne_true
  have hloop : inserted.deliverOrdered = ([streamMessage m k], inserted.deliverOne.2) := by
    rw [← hmsg]
    exact deliverLoop_once 62 hdue hstop
  rw [hloop]
  exact ⟨rfl, hnext, hfree⟩

/-! ### Whole runs -/

/-- What has been delivered is the stream up to where the window starts, and the
message due next has not arrived. -/
structure DeliveredInOrder (m : Nat → Bytes) (r : OrderedReceiver) : Prop where
  window : Reassembles m r.state r.delivered.length
  stream : r.delivered = (List.range r.delivered.length).map (streamMessage m)
  waiting : r.state.deliverable = false

theorem start_deliveredInOrder : DeliveredInOrder m .start :=
  ⟨reset_reassembles, rfl, rfl⟩

/-- Delivering after an acceptance extends the stream without a gap. -/
theorem DeliveredInOrder.deliver {r : OrderedReceiver} (hs : DeliveredInOrder m r)
    (h : Reassembles m st r.delivered.length) :
    DeliveredInOrder m ⟨st.deliverOrdered.2, r.delivered ++ st.deliverOrdered.1⟩ ∧
      (st.deliverable = true →
        r.delivered.length < (r.delivered ++ st.deliverOrdered.1).length) := by
  obtain ⟨n, hmsgs, hwin, hpos⟩ := deliverLoop_reassembles reliableBufferSize h
  have hlen : (r.delivered ++ st.deliverOrdered.1).length = r.delivered.length + n := by
    show (r.delivered ++ (ReliableChannelState.deliverLoop reliableBufferSize st).1).length = _
    rw [hmsgs, List.length_append, List.length_map, List.length_range]
  refine ⟨⟨?_, ?_, st.deliverOrdered_stops⟩, ?_⟩
  · rw [hlen]
    exact hwin
  · rw [hlen, List.range_add, List.map_append, ← hs.stream, List.map_map]
    show r.delivered ++ (ReliableChannelState.deliverLoop reliableBufferSize st).1 = _
    rw [hmsgs]
    rfl
  · intro hd
    rw [hlen]
    have := hpos (by decide) hd
    omega

/-- One arrival keeps the order, and the message due next is delivered as it arrives. -/
theorem arriveOrdered_inOrder (hm : ∀ i, (m i).length ≤ mtu) {r : OrderedReceiver}
    (hs : DeliveredInOrder m r) {i : Nat} (hnear : NearNext r i) :
    DeliveredInOrder m (arriveOrdered m r i) ∧
      (i = r.delivered.length →
        r.delivered.length < (arriveOrdered m r i).delivered.length) := by
  have hbuf := bufferReceivedOrdered_eq hs.window hm hnear
  have hfree : (r.state.recvBuffer.get r.delivered.length).valid = false := by
    rw [← Bool.not_eq_true, ← deliverable_iff hs.window, hs.waiting]
    exact Bool.false_ne_true
  unfold arriveOrdered
  by_cases hacc : r.delivered.length ≤ i ∧ i < r.delivered.length + 64 ∧
      (r.state.recvBuffer.get i).valid = false
  · rw [if_pos hacc] at hbuf
    have hins := hs.window.insert hacc.1 hacc.2.1
    obtain ⟨hstream, hgrow⟩ := hs.deliver hins
    simp only [hbuf]
    refine ⟨hstream, ?_⟩
    intro hi
    apply hgrow
    rw [deliverable_iff hins, ← hi, Table.get_set, mod_u16Size_mod, if_pos rfl]
  · rw [if_neg hacc] at hbuf
    simp only [hbuf]
    refine ⟨hs, ?_⟩
    intro hi
    rw [← hi] at hfree
    exact absurd ⟨by omega, by omega, hfree⟩ hacc

/--
**Reassembly delivers exactly the sender's stream.**  Whatever is lost, duplicated or
reordered, as long as no copy arrives `2 ^ 15` messages or more from the next one due,
what has been delivered is at all times the stream's first messages, in order, each
once, with their bytes; and the message due next is delivered when a copy arrives.
-/
theorem ordered_delivers_stream (m : Nat → Bytes) (hm : ∀ i, (m i).length ≤ 1200)
    (es : List Nat) (hes : Along (arriveOrdered m) NearNext .start es) :
    let r := run (arriveOrdered m) .start es
    r.delivered = (List.range r.delivered.length).map (streamMessage m) ∧
      r.delivered.length < (arriveOrdered m r r.delivered.length).delivered.length := by
  intro r
  have hinv : DeliveredInOrder m r := run_invariant (DeliveredInOrder m)
    (fun _ _ hs hnear => (arriveOrdered_inOrder hm hs hnear).1) start_deliveredInOrder hes
  have hnear : NearNext r r.delivered.length := by
    show |(r.delivered.length : Int) - r.delivered.length| < 2 ^ 15
    simp
  exact ⟨hinv.stream, (arriveOrdered_inOrder hm hinv hnear).2 rfl⟩

/-- Message 2 before 1, with copies of 0 and 2 in between. -/
theorem ordered_delivers_reordered :
    (run (arriveOrdered (fun i => [UInt8.ofNat i])) .start [0, 2, 0, 2, 1]).delivered
      = (List.range 3).map (streamMessage fun i => [UInt8.ofNat i]) := by
  have hlen : (run (arriveOrdered fun i => [UInt8.ofNat i]) .start [0, 2, 0, 2, 1]).delivered.length
      = 3 := by decide
  have hmain := (ordered_delivers_stream (fun i => [UInt8.ofNat i]) (fun _ => by simp)
    [0, 2, 0, 2, 1] (by decide)).1
  rwa [hlen] at hmain

end Netudp
