/-
Who a connection is with.

Accepting a client and releasing its slot set the `active` flag, the address and the
client id of a connection.  Nothing else does: sending, receiving and updating leave all
three alone.
-/
import Netudp.Proofs.Calls
import Netudp.Proofs.Receive

namespace Netudp

open Lib

variable {Key Ct : Type}

/-- The two connections are with the same client. -/
structure SamePeer (c c' : Connection Key) : Prop where
  active : c'.active = c.active
  address : c'.address = c.address
  clientId : c'.clientId = c.clientId

theorem SamePeer.refl (c : Connection Key) : SamePeer c c := ⟨rfl, rfl, rfl⟩

theorem SamePeer.trans {a b c : Connection Key} (h : SamePeer a b) (h' : SamePeer b c) :
    SamePeer a c :=
  ⟨h'.active.trans h.active, h'.address.trans h.address, h'.clientId.trans h.clientId⟩

/-! ### Sending -/

section Send

variable (C : Primitives Key Ct) (cfg : ServerConfig) (now : Time)

/-- No call that sends changes the peer. -/
theorem samePeer_callKeeps (S : SendPath Key Ct) (pid : Nat) :
    CallKeeps S C pid now fun c _ c' => SamePeer c c' where
  quiet _ h := ⟨h.active, h.address, h.clientId⟩
  trans h h' := h.trans h'
  data _ h := ⟨h.active, h.address, h.clientId⟩
  keepalive _ h := ⟨h.active, h.address, h.clientId⟩

theorem serverSend_samePeer (pid : Nat) (c : Connection Key) (channel : Nat) (data : Bytes)
    (flags : SendFlags) : SamePeer c (serverSend C pid now c channel data flags).2.1 :=
  (samePeer_callKeeps C now _ pid).serverSend c channel data flags

theorem serverFlush_samePeer (pid : Nat) (c : Connection Key) :
    SamePeer c (serverFlush C pid now c).1 :=
  (samePeer_callKeeps C now _ pid).serverFlush c

theorem serverUpdateConnection_samePeer (pid : Nat) (dt : Time) (c : Connection Key) :
    SamePeer c (serverUpdateConnection C pid now dt c).1 :=
  (samePeer_callKeeps C now _ pid).serverUpdateConnection dt c

theorem serverSendState_samePeer (c : Connection Key) (channel entityId : Nat) (data : Bytes) :
    SamePeer c (serverSendState now c channel entityId data).2 :=
  have h := quiet_serverSendState now c channel entityId data
  ⟨h.active, h.address, h.clientId⟩

/-- An accepted connection is with the client the token names, at the address the request
came from. -/
theorem serverAccept_peer (slot : Nat) (c : Connection Key) (from_ : Address)
    (token : PrivateConnectToken Key) :
    (serverAccept C cfg now slot c from_ token).1.active = true ∧
      (serverAccept C cfg now slot c from_ token).1.address = from_ ∧
      (serverAccept C cfg now slot c from_ token).1.clientId = token.clientId := by
  simp only [serverAccept, serverSendAccept]
  split
  · exact ⟨rfl, rfl, rfl⟩
  · exact ⟨rfl, rfl, rfl⟩

end Send

/-! ### Receiving -/

theorem serverHandleDataPacket_samePeer (C : Primitives Key Ct) (now : Time) (pid : Nat)
    (c : Connection Key) (packet : Packet Ct) :
    SamePeer c (serverHandleDataPacket C pid now c packet).1 := by
  have hopened : SamePeer c (serverOpenFrames C pid now c packet).1 := by
    simp only [serverOpenFrames]
    split
    · exact SamePeer.refl c
    split
    · exact ⟨rfl, rfl, rfl⟩
    split
    · exact ⟨rfl, rfl, rfl⟩
    · exact ⟨rfl, rfl, rfl⟩
  rw [serverHandleDataPacket_eq, applyFrames_cdata]
  exact hopened.trans ⟨rfl, rfl, rfl⟩

end Netudp
