/-
Reassembly of fragmented messages (`src/fragment/fragment.h`).

Sixteen trackers, each with a buffer that fragments are copied into at the offset of
their index.  Buffers are functions of the offset; a buffer is zeroed when its tracker
is taken for a message.
-/
import Netudp.Crypto.PacketCrypto

namespace Netudp

open Lib

/-- `NETUDP_MAX_MESSAGE_SIZE`. -/
def maxMessageSize : Nat := 288 * 1024

/-- `MAX_FRAGMENT_COUNT`. -/
def maxFragmentCount : Nat := 255

/-- `FRAGMENT_TIMEOUT_SEC`. -/
def fragmentTimeoutSec : Time := 5

/-- `calc_fragment_count`; `none` for `-1`. -/
def calcFragmentCount (messageSize maxFragmentPayload : Nat) : Option Nat :=
  if messageSize = 0 ∨ maxFragmentPayload = 0 then none
  else
    let count := (messageSize + maxFragmentPayload - 1) / maxFragmentPayload
    if maxFragmentCount < count then none else some count

/-- `struct FragmentTracker`. -/
structure FragmentTracker where
  messageId : Nat := 0
  totalFragments : Nat := 0
  receivedCount : Nat := 0
  receivedMask : BitVec 256 := 0
  firstRecvTime : Time := 0
  lastRecvTime : Time := 0
  active : Bool := false
  buffer : Nat → UInt8 := fun _ => 0
  bufferCapacity : Nat := 0
  fragmentSizes : Nat → Nat := fun _ => 0

namespace FragmentTracker

/-- `is_complete`. -/
def isComplete (t : FragmentTracker) : Bool := t.receivedCount == t.totalFragments

/-- `has_fragment`. -/
def hasFragment (t : FragmentTracker) (index : Nat) : Bool := t.receivedMask.getLsbD index

/-- `mark_fragment`. -/
def markFragment (t : FragmentTracker) (index : Nat) : FragmentTracker :=
  if t.hasFragment index then t
  else
    { t with
      receivedMask := t.receivedMask ||| BitVec.twoPow 256 index
      receivedCount := (t.receivedCount + 1) % 256 }

/-- `total_message_size`. -/
def totalMessageSize (t : FragmentTracker) : Nat :=
  ((List.range t.totalFragments).map t.fragmentSizes).sum

/-- The fragment copied into the buffer at its offset, and counted. -/
def store (t : FragmentTracker) (index offset : Nat) (data : Bytes) (time : Time) :
    FragmentTracker :=
  let t := { t with
    buffer := fun i => if offset ≤ i ∧ i < offset + data.length then data.getD (i - offset) 0
      else t.buffer i
    fragmentSizes := fun i => if i = index then data.length else t.fragmentSizes i }
  { t.markFragment index with lastRecvTime := time }

/-- `reset`: everything but the capacity of the buffer. -/
def reset (t : FragmentTracker) : FragmentTracker :=
  { bufferCapacity := t.bufferCapacity }

end FragmentTracker

/-- `class FragmentReassembler`, with its 16 slots. -/
structure FragmentReassembler where
  trackers : Table 16 FragmentTracker := .fill {}

namespace FragmentReassembler

/-- `init`. -/
def init (maxMessageSize : Nat) : FragmentReassembler where
  trackers := .fill { bufferCapacity := maxMessageSize }

/-- `find_tracker`. -/
def findTracker (r : FragmentReassembler) (messageId : Nat) : Option Nat :=
  (List.range 16).find? fun i =>
    (r.trackers.get i).active && (r.trackers.get i).messageId == messageId

/-- `allocate_tracker`: the slot taken, and the reassembler with it set up. -/
def allocateTracker (r : FragmentReassembler) (messageId fragmentCount : Nat) (time : Time) :
    Option Nat × FragmentReassembler :=
  match (List.range 16).find? fun i => !(r.trackers.get i).active with
  | none => (none, r)
  | some i =>
    let t := { (r.trackers.get i).reset with
      messageId := messageId
      totalFragments := fragmentCount
      firstRecvTime := time
      active := true }
    (some i, { r with trackers := r.trackers.set i t })

/-- `on_fragment_received`: the whole message when this fragment completes it. -/
def onFragmentReceived (r : FragmentReassembler) (messageId fragmentIndex fragmentCount : Nat)
    (data : Bytes) (maxFragmentPayload : Nat) (time : Time) :
    Option Bytes × FragmentReassembler :=
  if fragmentCount = 0 ∨ fragmentCount ≤ fragmentIndex then (none, r)
  else
    let (slot, r) :=
      match r.findTracker messageId with
      | some i => (some i, r)
      | none => r.allocateTracker messageId fragmentCount time
    match slot with
    | none => (none, r)
    | some i =>
      let t := r.trackers.get i
      if t.totalFragments ≠ fragmentCount then (none, r)
      else if t.hasFragment fragmentIndex then (none, r)
      else if t.bufferCapacity < fragmentIndex * maxFragmentPayload + data.length then (none, r)
      else
        let t := t.store fragmentIndex (fragmentIndex * maxFragmentPayload) data time
        if t.isComplete then
          (some ((List.range t.totalMessageSize).map t.buffer),
            { r with trackers := r.trackers.set i { t with active := false } })
        else (none, { r with trackers := r.trackers.set i t })

/-- The reassembly in the slot has been going on for too long. -/
def timedOut (r : FragmentReassembler) (now : Time) (i : Nat) : Bool :=
  (r.trackers.get i).active && fragmentTimeoutSec < now - (r.trackers.get i).firstRecvTime

/-- `cleanup_timeout`. -/
def cleanupTimeout (r : FragmentReassembler) (now : Time) : FragmentReassembler :=
  (List.range 16).foldl (fun r i =>
    if r.timedOut now i then { r with trackers := r.trackers.set i (r.trackers.get i).reset }
    else r) r

end FragmentReassembler

end Netudp
