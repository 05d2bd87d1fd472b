/-
Reliable messages of one channel (`src/reliability/reliable_channel.h`).

The sending side keeps the last 64 messages by their 16-bit sequence modulo 64; the
receiving side reorders through a second table of the same shape.  `deliver_ordered`
is a loop without a bound in the code; `deliverOrdered` runs it for the 64 rounds
after which `deliverOrdered_stops` shows it has ended.  The loops over
`[oldest_unacked, send_seq)` count a 16-bit number up to another and are run for the
`2 ^ 16` rounds that takes at most (`markAcked_stops`, `findRetransmits_stops`).
-/
import Netudp.Lib.Serial
import Netudp.Crypto.PacketCrypto

namespace Netudp

open Lib

/-- One past the largest 16-bit value. -/
def u16Size : Nat := 65536

/-- `RELIABLE_BUFFER_SIZE`. -/
def reliableBufferSize : Nat := 64

/-- `MAX_RETRIES`. -/
def maxRetries : Nat := 10

/-- The capacity of a message slot, `NETUDP_MTU`. -/
def mtu : Nat := 1200

/-- `struct SentMessage`. -/
structure SentMessage where
  sequence : Nat := 0
  packetSequence : Nat := 0
  sendTime : Time := 0
  retryCount : Nat := 0
  data : Bytes := []
  acked : Bool := false
  valid : Bool := false

/-- `struct ReceivedMessage`. -/
structure ReceivedMessage where
  sequence : Nat := 0
  data : Bytes := []
  valid : Bool := false

/-- `class ReliableChannelState`. -/
structure ReliableChannelState where
  sendSeq : Nat
  recvSeq : Nat
  oldestUnacked : Nat
  sentBuffer : Table 64 SentMessage
  recvBuffer : Table 64 ReceivedMessage
  messagesDropped : Nat

namespace ReliableChannelState

/-- `reset`, and the state a channel starts with. -/
def reset : ReliableChannelState where
  sendSeq := 0
  recvSeq := 0
  oldestUnacked := 0
  sentBuffer := .fill {}
  recvBuffer := .fill {}
  messagesDropped := 0

/-! ### Sending -/

/-- `record_send`. -/
def recordSend (st : ReliableChannelState) (data : Bytes) (packetSeq : Nat) (time : Time) :
    Bool × ReliableChannelState :=
  if data.length = 0 ∨ mtu < data.length then (false, st)
  else
    (true,
      { st with
        sentBuffer := st.sentBuffer.set st.sendSeq
          { sequence := st.sendSeq, packetSequence := packetSeq, sendTime := time,
            retryCount := 0, data := data, acked := false, valid := true }
        sendSeq := (st.sendSeq + 1) % u16Size })

/-! ### Acknowledgement and retransmission -/

/-- The loop of `mark_acked` over the oldest messages. -/
def advanceOldest : Nat → ReliableChannelState → ReliableChannelState
  | 0, st => st
  | fuel + 1, st =>
    let slot := st.sentBuffer.get st.oldestUnacked
    if st.oldestUnacked = st.sendSeq ∨ slot.acked = false ∨
        slot.sequence ≠ st.oldestUnacked then st
    else
      advanceOldest fuel
        { st with
          sentBuffer := st.sentBuffer.set st.oldestUnacked { slot with valid := false }
          oldestUnacked := (st.oldestUnacked + 1) % u16Size }

/-- `mark_acked`. -/
def markAcked (st : ReliableChannelState) (msgSeq : Nat) : ReliableChannelState :=
  let slot := st.sentBuffer.get msgSeq
  let st :=
    if slot.valid ∧ slot.sequence = msgSeq then
      { st with sentBuffer := st.sentBuffer.set msgSeq { slot with acked := true } }
    else st
  st.advanceOldest u16Size

/-- `get_for_retransmit`. -/
def getForRetransmit (st : ReliableChannelState) (msgSeq : Nat) : Option SentMessage :=
  let msg := st.sentBuffer.get msgSeq
  if msg.valid ∧ msg.sequence = msgSeq ∧ msg.acked = false then some msg else none

/-- What `find_retransmits` leaves: the sequences written to `out_seqs`, those it
warns of as dropped, and the state. -/
structure Retransmits where
  found : List Nat
  dropped : List Nat
  state : ReliableChannelState

/-- The body of the loop of `find_retransmits`. -/
def retransmitOne (now rto : Time) (r : Retransmits) (seq : Nat) : Retransmits :=
  let msg := r.state.sentBuffer.get seq
  if msg.valid = false ∨ msg.sequence ≠ seq ∨ msg.acked then r
  else if rto * 2 ^ min msg.retryCount 5 ≤ now - msg.sendTime then
    if maxRetries ≤ msg.retryCount then
      { r with
        dropped := r.dropped ++ [seq]
        state :=
          { r.state with
            sentBuffer := r.state.sentBuffer.set seq { msg with valid := false }
            messagesDropped := (r.state.messagesDropped + 1) % u32Size } }
    else { r with found := r.found ++ [seq] }
  else r

/-- The loop of `find_retransmits`, from `seq` on. -/
def retransmitLoop (now rto : Time) (maxCount : Nat) : Nat → Nat → Retransmits → Retransmits
  | 0, _, r => r
  | fuel + 1, seq, r =>
    if seq = r.state.sendSeq ∨ maxCount ≤ r.found.length then r
    else retransmitLoop now rto maxCount fuel ((seq + 1) % u16Size) (retransmitOne now rto r seq)

/-- `find_retransmits`. -/
def findRetransmits (st : ReliableChannelState) (now rto : Time) (maxCount : Nat) : Retransmits :=
  retransmitLoop now rto maxCount u16Size st.oldestUnacked ⟨[], [], st⟩

/-! ### Receiving in order -/

/-- `buffer_received_ordered`. -/
def bufferReceivedOrdered (st : ReliableChannelState) (msgSeq : Nat) (data : Bytes) :
    Bool × ReliableChannelState :=
  let diff := serialDiff u16Size msgSeq st.recvSeq
  if diff < 0 then (false, st)
  else if (reliableBufferSize : Int) ≤ diff then (false, st)
  else if (st.recvBuffer.get msgSeq).valid ∧ (st.recvBuffer.get msgSeq).sequence = msgSeq then
    (false, st)
  else
    (true,
      { st with
        recvBuffer := st.recvBuffer.set msgSeq
          { sequence := msgSeq, data := data.take mtu, valid := true } })

/-- The message `deliver_ordered` looks for is in its slot. -/
def deliverable (st : ReliableChannelState) : Bool :=
  (st.recvBuffer.get st.recvSeq).valid && (st.recvBuffer.get st.recvSeq).sequence == st.recvSeq

/-- The body of the loop of `deliver_ordered`: what the callback receives, and the
state with the slot freed. -/
def deliverOne (st : ReliableChannelState) : (Bytes × Nat) × ReliableChannelState :=
  let slot := st.recvBuffer.get st.recvSeq
  ((slot.data, st.recvSeq),
    { st with
      recvBuffer := st.recvBuffer.set st.recvSeq { slot with valid := false }
      recvSeq := (st.recvSeq + 1) % u16Size })

/-- The loop of `deliver_ordered`, for at most `fuel` rounds: the callback's
arguments in order, and the state. -/
def deliverLoop : Nat → ReliableChannelState → List (Bytes × Nat) × ReliableChannelState
  | 0, st => ([], st)
  | fuel + 1, st =>
    if st.deliverable then
      let (msg, st) := st.deliverOne
      let (msgs, st) := deliverLoop fuel st
      (msg :: msgs, st)
    else ([], st)

/-- `deliver_ordered`. -/
def deliverOrdered (st : ReliableChannelState) : List (Bytes × Nat) × ReliableChannelState :=
  deliverLoop reliableBufferSize st

/-! ### Receiving unordered -/

/-- `is_received_unordered`. -/
def isReceivedUnordered (st : ReliableChannelState) (msgSeq : Nat) : Bool :=
  (st.recvBuffer.get msgSeq).valid && (st.recvBuffer.get msgSeq).sequence == msgSeq

/-- `mark_received_unordered`. -/
def markReceivedUnordered (st : ReliableChannelState) (msgSeq : Nat) : ReliableChannelState :=
  { st with
    recvBuffer := st.recvBuffer.set msgSeq
      { st.recvBuffer.get msgSeq with sequence := msgSeq, valid := true } }

/-! ### The delivery loop ends -/

/-- The `n` slots before the next one are free. -/
private def FreedBehind (st : ReliableChannelState) (n : Nat) : Prop :=
  ∀ j, j < n → (st.recvBuffer.get (st.recvSeq + 63 - j)).valid = false

private theorem freedBehind_deliverOne {st : ReliableChannelState} {n : Nat}
    (h : FreedBehind st n) (hn : n ≤ 63) : FreedBehind st.deliverOne.2 (n + 1) := by
  intro j hj
  show ((st.recvBuffer.set st.recvSeq _).get ((st.recvSeq + 1) % u16Size + 63 - j)).valid = false
  rw [Table.get_set]
  unfold u16Size
  by_cases hsame : ((st.recvSeq + 1) % 65536 + 63 - j) % 64 = st.recvSeq % 64
  · rw [if_pos hsame]
  · rw [if_neg hsame]
    have hold := h (j - 1) (by omega)
    rwa [Table.get_congr _ (show (st.recvSeq + 63 - (j - 1)) % 64
      = ((st.recvSeq + 1) % 65536 + 63 - j) % 64 by omega)] at hold

private theorem deliverLoop_stops : ∀ (fuel : Nat) {st : ReliableChannelState} {n : Nat},
    FreedBehind st n → n + fuel = 64 → (deliverLoop fuel st).2.deliverable = false := by
  intro fuel
  induction fuel with
  | zero =>
    intro st n h hn
    -- All 64 slots are free, the next one among them.
    have hfree := h 63 (by omega)
    rw [show st.recvSeq + 63 - 63 = st.recvSeq by omega] at hfree
    simp [deliverLoop, deliverable, hfree]
  | succ fuel ih =>
    intro st n h hn
    unfold deliverLoop
    by_cases hd : st.deliverable = true
    · rw [if_pos hd]
      exact ih (freedBehind_deliverOne h (by omega)) (by omega)
    · rw [if_neg hd]
      exact Bool.eq_false_iff.mpr hd

/-- **The loop of `deliver_ordered` ends within 64 rounds**, from any state. -/
theorem deliverOrdered_stops (st : ReliableChannelState) :
    (deliverOrdered st).2.deliverable = false :=
  deliverLoop_stops _ (fun _ hj => absurd hj (Nat.not_lt_zero _)) rfl

/-! ### The loops over the outstanding messages end -/

private theorem advanceOldest_stops : ∀ (fuel : Nat) {st : ReliableChannelState},
    st.oldestUnacked < u16Size → st.sendSeq < u16Size →
    ahead u16Size st.oldestUnacked st.sendSeq < fuel →
    advanceOldest (fuel + 1) st = advanceOldest fuel st := by
  intro fuel
  induction fuel with
  | zero => intro st _ _ hfuel; exact absurd hfuel (Nat.not_lt_zero _)
  | succ fuel ih =>
    intro st hold hsend hfuel
    conv_lhs => rw [advanceOldest]
    conv_rhs => rw [advanceOldest]
    split
    · rfl
    · rename_i hgo
      have hne : st.oldestUnacked ≠ st.sendSeq := fun h => hgo (Or.inl h)
      have hnear := ahead_succ hold hsend hne
      exact ih (Nat.mod_lt _ (by decide)) hsend (by dsimp only; omega)

/-- **The loop of `mark_acked` ends within `2 ^ 16` rounds**: another round changes
nothing. -/
theorem markAcked_stops {st : ReliableChannelState} (hold : st.oldestUnacked < u16Size)
    (hsend : st.sendSeq < u16Size) :
    advanceOldest (u16Size + 1) st = advanceOldest u16Size st :=
  advanceOldest_stops _ hold hsend (ahead_lt (by decide) _ _)

theorem retransmitOne_sendSeq (now rto : Time) (r : Retransmits) (seq : Nat) :
    (retransmitOne now rto r seq).state.sendSeq = r.state.sendSeq := by
  simp only [retransmitOne]
  split_ifs <;> rfl

private theorem retransmitLoop_stops (now rto : Time) (maxCount : Nat) :
    ∀ (fuel seq : Nat) {r : Retransmits}, seq < u16Size → r.state.sendSeq < u16Size →
      ahead u16Size seq r.state.sendSeq < fuel →
      retransmitLoop now rto maxCount (fuel + 1) seq r
        = retransmitLoop now rto maxCount fuel seq r := by
  intro fuel
  induction fuel with
  | zero => intro seq r _ _ hfuel; exact absurd hfuel (Nat.not_lt_zero _)
  | succ fuel ih =>
    intro seq r hseq hsend hfuel
    conv_lhs => rw [retransmitLoop]
    conv_rhs => rw [retransmitLoop]
    split
    · rfl
    · rename_i hgo
      have hne : seq ≠ r.state.sendSeq := fun h => hgo (Or.inl h)
      have hnear := ahead_succ hseq hsend hne
      refine ih _ (Nat.mod_lt _ (by decide)) ?_ ?_
      · rw [retransmitOne_sendSeq]
        exact hsend
      · rw [retransmitOne_sendSeq]
        omega

/-- **The loop of `find_retransmits` ends within `2 ^ 16` rounds**: another round
changes nothing. -/
theorem findRetransmits_stops {st : ReliableChannelState} (now rto : Time) (maxCount : Nat)
    (hold : st.oldestUnacked < u16Size) (hsend : st.sendSeq < u16Size) :
    retransmitLoop now rto maxCount (u16Size + 1) st.oldestUnacked ⟨[], [], st⟩
      = st.findRetransmits now rto maxCount :=
  retransmitLoop_stops now rto maxCount _ _ hold hsend (ahead_lt (by decide) _ _)

end ReliableChannelState

end Netudp
