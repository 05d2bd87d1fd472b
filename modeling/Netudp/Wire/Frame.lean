/-
Frames inside the encrypted payload (`src/wire/frame.h`).

A writer is given the room left in the payload and returns the frame's bytes, or
`none` where the code returns `-1`.
-/
import Netudp.Crypto.Aead

namespace Netudp

open Lib

/-- `FRAME_UNRELIABLE_DATA`. -/
def frameUnreliableData : UInt8 := 0x03

/-- `FRAME_RELIABLE_DATA`. -/
def frameReliableData : UInt8 := 0x04

/-- `FRAME_FRAGMENT_DATA`. -/
def frameFragmentData : UInt8 := 0x05

/-- `FRAME_DISCONNECT`. -/
def frameDisconnect : UInt8 := 0x06

/-- A frame with its fields. -/
inductive Frame where
  | unreliableData (channel : Nat) (data : Bytes)
  | reliableData (channel msgSeq : Nat) (data : Bytes)
  | fragmentData (channel msgId fragIdx fragCnt : Nat) (data : Bytes)
  | disconnect (reason : Nat)
deriving DecidableEq

/-- The bytes of a frame. -/
def Frame.bytes : Frame → Bytes
  | .unreliableData channel data =>
    [frameUnreliableData, UInt8.ofNat channel] ++ leBytes 2 data.length ++ data
  | .reliableData channel msgSeq data =>
    [frameReliableData, UInt8.ofNat channel] ++ leBytes 2 msgSeq ++ leBytes 2 data.length ++ data
  | .fragmentData channel msgId fragIdx fragCnt data =>
    [frameFragmentData, UInt8.ofNat channel] ++ leBytes 2 msgId ++
      [UInt8.ofNat fragIdx, UInt8.ofNat fragCnt] ++ data
  | .disconnect reason => [frameDisconnect, UInt8.ofNat reason]

/-- A frame, if it fits. -/
def frameIn (avail : Nat) (frame : Frame) : Option Bytes :=
  if avail < frame.bytes.length then none else some frame.bytes

/-- `write_unreliable_frame`. -/
def writeUnreliableFrame (avail channel : Nat) (data : Bytes) : Option Bytes :=
  frameIn avail (.unreliableData channel data)

/-- `write_reliable_frame`. -/
def writeReliableFrame (avail channel msgSeq : Nat) (data : Bytes) : Option Bytes :=
  frameIn avail (.reliableData channel msgSeq data)

/-- `write_fragment_frame`. -/
def writeFragmentFrame (avail channel msgId fragIdx fragCnt : Nat) (data : Bytes) : Option Bytes :=
  frameIn avail (.fragmentData channel msgId fragIdx fragCnt data)

/-- `write_disconnect_frame`. -/
def writeDisconnectFrame (avail reason : Nat) : Option Bytes :=
  frameIn avail (.disconnect reason)

end Netudp
