/-
Unreliable-sequenced channels on the receiving side.

A channel delivers a message if its number is newer than the last one it delivered.
`last_delivered_seq_` starts at `0`, so `0` is read as "nothing delivered yet", also
when it is the number of a message that was delivered: right after that message,
anything passes, a copy of it and messages older than it included.

A run keeps what was delivered.  The theorem is about runs where whatever comes right
after message `0` is newer than it; there each message is newer than the one before.
-/
import Netudp.Lib.Run
import Netudp.Channel.Channel

namespace Netudp

open Lib

/-- Strictly newer, in the order of signed 16-bit differences. -/
def NewerThan (a b : Nat) : Prop := 0 < serialDiff u16Size a b
deriving Decidable

/-- A channel that receives, and the numbers it has let through, newest first. -/
structure SequencedReceiver where
  channel : Channel
  delivered : List Nat := []

/-- One message arrives. -/
def sequencedStep (s : SequencedReceiver) (sequence : Nat) : SequencedReceiver :=
  match s.channel.onRecvUnreliableSequenced sequence with
  | (true, channel) => ⟨channel, sequence :: s.delivered⟩
  | (false, channel) => ⟨channel, s.delivered⟩

/-- What arrives right after message `0` was delivered is newer than it. -/
def NewerThanZero (s : SequencedReceiver) (sequence : Nat) : Prop :=
  s.delivered.head? = some 0 → NewerThan sequence 0
deriving Decidable

/-- The channel remembers the newest message delivered, each of which was newer than the
one before. -/
structure InSequence (s : SequencedReceiver) : Prop where
  last : s.channel.lastDeliveredSeq = s.delivered.head?.getD 0
  chain : s.delivered.IsChain NewerThan

/-- What one arrival does: it is delivered and remembered, or stale and nothing changes. -/
theorem sequencedStep_cases (s : SequencedReceiver) (sequence : Nat) :
    (sequencedStep s sequence =
        ⟨{ s.channel with lastDeliveredSeq := sequence }, sequence :: s.delivered⟩ ∧
      (s.channel.lastDeliveredSeq = 0 ∨ NewerThan sequence s.channel.lastDeliveredSeq)) ∨
    sequencedStep s sequence = s := by
  by_cases hstale : serialDiff u16Size sequence s.channel.lastDeliveredSeq ≤ 0 ∧
      s.channel.lastDeliveredSeq ≠ 0
  · right
    simp [sequencedStep, Channel.onRecvUnreliableSequenced, hstale]
  · left
    refine ⟨by simp [sequencedStep, Channel.onRecvUnreliableSequenced, hstale], ?_⟩
    by_cases hzero : s.channel.lastDeliveredSeq = 0
    · exact Or.inl hzero
    · exact Or.inr (Int.not_le.mp fun hle => hstale ⟨hle, hzero⟩)

/-- An arrival keeps the sequence, unless it comes right after message `0` and is not
newer. -/
theorem InSequence.step {s : SequencedReceiver} (h : InSequence s) (sequence : Nat)
    (hzero : NewerThanZero s sequence) : InSequence (sequencedStep s sequence) := by
  rcases sequencedStep_cases s sequence with ⟨hstep, hnewer⟩ | hstep
  · rw [hstep]
    refine ⟨rfl, ?_⟩
    cases hdelivered : s.delivered with
    | nil => exact List.IsChain.singleton sequence
    | cons previous earlier =>
      have hchain := h.chain
      have hlast := h.last
      rw [hdelivered] at hchain hlast
      refine List.isChain_cons_cons.mpr ⟨?_, hchain⟩
      rcases hnewer with hnone | hnewer
      · -- The channel takes the message `0` for none; the arrival is newer anyway.
        have hprevious : previous = 0 := by simpa [hnone] using hlast.symm
        rw [hprevious] at hdelivered ⊢
        exact hzero (by simp [hdelivered])
      · simpa [hlast] using hnewer
  · rw [hstep]
    exact h

/--
**Each delivered message is strictly newer than the one delivered before it**, on a fresh
channel and over any number of wraps, as long as what comes right after a delivered
message `0` is newer than it.
-/
theorem delivered_in_sequence (c : Channel) (config : ChannelConfig) (sequences : List Nat)
    (hzero : Along sequencedStep NewerThanZero ⟨c.init config, []⟩ sequences) :
    (run sequencedStep ⟨c.init config, []⟩ sequences).delivered.IsChain NewerThan :=
  (run_invariant InSequence (fun _ sequence hs hz => hs.step sequence hz)
    ⟨rfl, List.IsChain.nil⟩ hzero).chain

/-- Around the wrap, with a late message before it and the message `0` in between. -/
theorem delivered_around_the_wrap :
    (run sequencedStep ⟨Channel.init {} {}, []⟩ [65533, 65535, 65534, 0, 2, 1]).delivered =
      [2, 0, 65535, 65533] ∧
    (run sequencedStep ⟨Channel.init {} {}, []⟩
      [65533, 65535, 65534, 0, 2, 1]).delivered.IsChain NewerThan :=
  ⟨by decide +kernel, delivered_in_sequence {} {} _ (by decide +kernel)⟩

/-- After the wrap, message `65535` is delivered again behind message `0`. -/
theorem stale_message_delivered_after_zero :
    (run sequencedStep ⟨Channel.init {} {}, []⟩ [65535, 0, 65535]).delivered = [65535, 0, 65535] ∧
    ¬ NewerThan 65535 0 := by
  decide +kernel

end Netudp
