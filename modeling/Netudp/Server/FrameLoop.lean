/-
The frame loop of `server_handle_data_packet` (`src/server.cpp`), byte by byte.

`Server.Receive` reads a payload as a list of frames and then acts on them.  The code does
both in one loop over positions of the plaintext, and its bounds are checks on positions.
Here is that loop as it is written, with a log of what it does to memory: the bytes of
the plaintext it reads, the frames it has read when it acts on them, what it copies into
a `DeliveredMessage` and what it pushes.

The log is chronological except that the bytes handed to the reliability layer or to the
reassembler count as read when they are handed over; a duplicate is in fact not looked at.
-/
import Netudp.Lib.Scan
import Netudp.Server.Receive

namespace Netudp

open Lib

variable {Key : Type}

/-- What a frame loop does that can be observed. -/
inductive FrameAction where
  /-- So many bytes of the plaintext are read from the position on. -/
  | read (pos len : Nat)
  /-- These bytes were a frame, and it is acted on. -/
  | met (frame : Frame)
  /-- So many bytes are copied into the data of a `DeliveredMessage`. -/
  | copied (len : Nat)
  /-- `delivered().push_back`. -/
  | pushed (msg : DeliveredMessage)

/-- `plaintext[pos]`. -/
def byteAt (plaintext : Bytes) (pos : Nat) : UInt8 := plaintext.getD pos 0

/-- The bytes at `plaintext + pos`. -/
def bytesAt (plaintext : Bytes) (pos len : Nat) : Bytes := (plaintext.drop pos).take len

/-- Two bytes copied into a `uint16_t`. -/
def u16At (plaintext : Bytes) (pos : Nat) : Nat := leNat (bytesAt plaintext pos 2)

/-- The messages are copied and pushed one after another. -/
def pushes (msgs : List DeliveredMessage) : List FrameAction :=
  msgs.flatMap fun msg => [.copied msg.data.length, .pushed msg]

/-- One round of the loop; DISCONNECT returns, and the slot is then released. -/
def serverFrameRound (now : Time) (plaintext : Bytes) (start : Nat) (c : Connection Key) :
    List FrameAction × Round (Connection Key) :=
  let ptLen := plaintext.length
  let frameType := byteAt plaintext start
  let pos := start + 1
  if frameType = frameUnreliableData ∧ pos + 3 ≤ ptLen then
    let ch := (byteAt plaintext pos).toNat
    let msgLen := u16At plaintext (pos + 1)
    let header : List FrameAction := [.read start 1, .read pos 1, .read (pos + 1) 2]
    let pos := pos + 3
    if ptLen < pos + msgLen ∨ c.numChannels ≤ ch then (header, .leave c)
    else
      let c := { c with books := c.books.messagesReceived 1 }
      let dmsg : DeliveredMessage := ⟨bytesAt plaintext pos msgLen, ch, 0, true⟩
      (header ++ [.read pos msgLen, .met (.unreliableData ch dmsg.data)] ++ pushes [dmsg],
        .next (pos + msgLen) (c.deliver dmsg))
  else if frameType = frameReliableData ∧ pos + 5 ≤ ptLen then
    let ch := (byteAt plaintext pos).toNat
    let msgSeq := u16At plaintext (pos + 1)
    let msgLen := u16At plaintext (pos + 3)
    let header : List FrameAction :=
      [.read start 1, .read pos 1, .read (pos + 1) 2, .read (pos + 3) 2]
    let pos := pos + 5
    if ptLen < pos + msgLen ∨ c.numChannels ≤ ch then (header, .leave c)
    else
      let data := bytesAt plaintext pos msgLen
      let (msgs, c) := c.onReliableData ch msgSeq data
      let c := { c with books := c.books.messagesReceived msgs.length }
      (header ++ [.read pos msgLen, .met (.reliableData ch msgSeq data)] ++ pushes msgs,
        .next (pos + msgLen) (msgs.foldl Connection.deliver c))
  else if frameType = frameFragmentData ∧ pos + 5 ≤ ptLen then
    let ch := (byteAt plaintext pos).toNat
    let msgId := u16At plaintext (pos + 1)
    let fragIdx := (byteAt plaintext (pos + 3)).toNat
    let fragCnt := (byteAt plaintext (pos + 4)).toNat
    let header : List FrameAction :=
      [.read start 1, .read pos 1, .read (pos + 1) 2, .read (pos + 3) 1, .read (pos + 4) 1]
    let pos := pos + 5
    let fragLen := ptLen - pos
    if fragLen = 0 then (header, .leave c)
    else
      let data := bytesAt plaintext pos fragLen
      let frame : Frame := .fragmentData ch msgId fragIdx fragCnt data
      -- The channel has not been checked, and a long message is cut off.
      let (msgs, c) := c.onFrame now frame
      let c := { c with books := c.books.fragmentsReceived (1 + msgs.length) }
      (header ++ [.read pos fragLen, .met frame] ++ pushes msgs,
        .next ptLen (msgs.foldl Connection.deliver c))
  else if frameType = frameDisconnect then
    if pos < ptLen then
      ([.read start 1, .read pos 1, .met (.disconnect (byteAt plaintext pos).toNat)], .quit c)
    else ([.read start 1, .met (.disconnect 0)], .quit c)
  else ([.read start 1], .leave c)

/-- The loop, behind the acknowledgement. -/
def serverFrameLoop (now : Time) (c : Connection Key) (plaintext : Bytes) :
    Scanned FrameAction (Connection Key) :=
  scan plaintext.length (serverFrameRound now plaintext) plaintext.length 8 c

end Netudp
