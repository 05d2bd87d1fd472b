/-
The frame loop of `client_handle_data_packet` (`src/client.cpp`), byte by byte.

A copy of the server's loop with the same checks written again, a default where the
server sets the sequence, the counts behind the pushes, and without fragments.
-/
import Netudp.Client.Receive
import Netudp.Server.FrameLoop

namespace Netudp

open Lib

variable {Key : Type}

/-- The client's branch for a reliable frame: the messages it releases, and the
connection with its channel's state updated. -/
def clientOnReliableData (c : Connection Key) (ch msgSeq : Nat) (data : Bytes) :
    List DeliveredMessage × Connection Key :=
  match (c.ch ch).config.type with
  | .reliableOrdered =>
    match (c.rs ch).bufferReceivedOrdered msgSeq data with
    | (false, st) => ([], c.setRs ch st)
    | (true, st) =>
      let (msgs, st) := st.deliverOrdered
      (msgs.map fun (data, seq) =>
        { data := data.take mtu, channel := ch, sequence := seq, valid := true },
        c.setRs ch st)
  | .reliableUnordered =>
    if !(c.rs ch).isReceivedUnordered msgSeq then
      ([{ data := data.take mtu, channel := ch, sequence := msgSeq, valid := true }],
        c.setRs ch ((c.rs ch).markReceivedUnordered msgSeq))
    else ([], c)
  | _ => ([], c)

/-- One round of the loop; DISCONNECT returns. -/
def clientFrameRound (plaintext : Bytes) (start : Nat) (c : Connection Key) :
    List FrameAction × Round (Connection Key) :=
  let ptLen := plaintext.length
  let frameType := byteAt plaintext start
  let pos := start + 1
  if frameType = frameUnreliableData ∧ pos + 3 ≤ ptLen then
    let ch := (byteAt plaintext pos).toNat
    let msgLen := u16At plaintext (pos + 1)
    let header : List FrameAction := [.read start 1, .read pos 1, .read (pos + 1) 2]
    let pos := pos + 3
    if ptLen < pos + msgLen ∨ c.numChannels ≤ ch then (header, .leave c)
    else
      let dmsg : DeliveredMessage :=
        { data := bytesAt plaintext pos msgLen, channel := ch, valid := true }
      let c := c.deliver dmsg
      (header ++ [.read pos msgLen, .met (.unreliableData ch dmsg.data)] ++ pushes [dmsg],
        .next (pos + msgLen) { c with books := c.books.messagesReceived 1 })
  else if frameType = frameReliableData ∧ pos + 5 ≤ ptLen then
    let ch := (byteAt plaintext pos).toNat
    let msgSeq := u16At plaintext (pos + 1)
    let msgLen := u16At plaintext (pos + 3)
    let header : List FrameAction :=
      [.read start 1, .read pos 1, .read (pos + 1) 2, .read (pos + 3) 2]
    let pos := pos + 5
    if ptLen < pos + msgLen ∨ c.numChannels ≤ ch then (header, .leave c)
    else
      let data := bytesAt plaintext pos msgLen
      let (msgs, c) := clientOnReliableData c ch msgSeq data
      let c := msgs.foldl Connection.deliver c
      (header ++ [.read pos msgLen, .met (.reliableData ch msgSeq data)] ++ pushes msgs,
        .next (pos + msgLen) { c with books := c.books.messagesReceived msgs.length })
  else if frameType = frameDisconnect then
    ([.read start 1, .met (.disconnect 0)], .quit { c with active := false })
  else ([.read start 1], .leave c)

/-- The loop, behind the acknowledgement. -/
def clientFrameLoop (c : Connection Key) (plaintext : Bytes) :
    Scanned FrameAction (Connection Key) :=
  scan plaintext.length (clientFrameRound plaintext) plaintext.length 8 c

end Netudp
