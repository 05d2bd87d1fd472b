/-
What a slot keeps from one client to the next.

`reset` and `init_subsystems` are two lists of fields.  Between them they set every field
of a connection anew except four: the generation, which is meant to go on, and the send
budget, the pending mask and the next slow tick, which are not.  So a client that is
accepted into a slot finds the budget, the mask and the tick of the one before it, and
nothing else of it.
-/
import Netudp.Proofs.PendingMask

namespace Netudp

open Lib

variable {Key Ct : Type}

/-- The connection with its generation set aside, for comparison. -/
def Connection.sansGeneration (c : Connection Key) : Connection Key :=
  { c with books := { c.books with generation := 0 } }

/-- The connection with what `reset` passes over taken from another one. -/
def Connection.withLeftovers (c old : Connection Key) : Connection Key :=
  { c with
    budget := old.budget
    pendingMask := old.pendingMask
    books := { c.books with
      generation := (old.books.generation + 1) % u32Size
      nextSlowTick := old.books.nextSlowTick } }

/-- The client is set up in a reset slot as in an unused one, the leftovers apart. -/
theorem establish_reset (C : Primitives Key Ct) (cfg : ServerConfig) (now : Time) (slot : Nat)
    (c : Connection Key) (from_ : Address) (token : PrivateConnectToken Key) :
    (c.reset C).establish cfg now slot from_ token =
      ((Connection.idle C).establish cfg now slot from_ token).withLeftovers c := rfl

theorem serverSendAccept_withLeftovers (C : Primitives Key Ct) (cfg : ServerConfig) (now : Time)
    (slot : Nat) (c old : Connection Key) :
    (serverSendAccept C cfg now slot (c.withLeftovers old)).1 =
      (serverSendAccept C cfg now slot c).1.withLeftovers old := by
  have hkeys : (c.withLeftovers old).keyEpoch = c.keyEpoch := rfl
  have htracker : (c.withLeftovers old).packetTracker = c.packetTracker := rfl
  simp only [serverSendAccept, hkeys, htracker]
  split
  · rfl
  · rfl

/-- A client just accepted into an unused slot has nothing to send and owes nothing. -/
theorem serverAccept_idle (C : Primitives Key Ct) (cfg : ServerConfig) (now : Time) (slot : Nat)
    (from_ : Address) (token : PrivateConnectToken Key) :
    (serverAccept C cfg now slot (.idle C) from_ token).1.budget = {} ∧
      (serverAccept C cfg now slot (.idle C) from_ token).1.pendingMask = 0 ∧
      (serverAccept C cfg now slot (.idle C) from_ token).1.books.nextSlowTick = 0 := by
  simp only [serverAccept, serverSendAccept]
  split
  · exact ⟨rfl, rfl, rfl⟩
  · exact ⟨rfl, rfl, rfl⟩

/-- Leftovers show, unless they are what the connection has anyway. -/
theorem withLeftovers_sansGeneration_iff (c old : Connection Key) :
    (c.withLeftovers old).sansGeneration = c.sansGeneration ↔
      old.budget = c.budget ∧ old.pendingMask = c.pendingMask ∧
        old.books.nextSlowTick = c.books.nextSlowTick := by
  constructor
  · intro h
    exact ⟨congrArg (fun c => c.budget) h, congrArg (fun c => c.pendingMask) h,
      congrArg (fun c => c.books.nextSlowTick) h⟩
  · rintro ⟨hbudget, hmask, htick⟩
    simp only [Connection.withLeftovers, Connection.sansGeneration, hbudget, hmask, htick]

/--
**When a reused slot is as good as new.**  Whatever the slot held when `reset` was called
on it, a client accepted into it afterwards gets the connection it would have got in a
slot never used, generation apart, exactly if the send budget, the pending mask and the
next slow tick were still what they are in a slot never used.
-/
theorem reused_slot_fresh_iff (C : Primitives Key Ct) (cfg : ServerConfig) (now : Time)
    (slot : Nat) (c : Connection Key) (from_ : Address) (token : PrivateConnectToken Key) :
    (serverAccept C cfg now slot (c.reset C) from_ token).1.sansGeneration =
        (serverAccept C cfg now slot (.idle C) from_ token).1.sansGeneration ↔
      c.budget = {} ∧ c.pendingMask = 0 ∧ c.books.nextSlowTick = 0 := by
  obtain ⟨hbudget, hmask, htick⟩ := serverAccept_idle C cfg now slot from_ token
  have hreset : (serverAccept C cfg now slot (c.reset C) from_ token).1 =
      (serverAccept C cfg now slot (.idle C) from_ token).1.withLeftovers c := by
    rw [serverAccept, establish_reset, serverSendAccept_withLeftovers]
    rfl
  rw [hreset, withLeftovers_sansGeneration_iff, hbudget, hmask, htick]

/-- The token of the client that comes second. -/
def secondToken : PrivateConnectToken Nat := ⟨6, 10, 3, 4, [], .replicate 256 0⟩

/-- A client connects, is sent one message and falls silent. -/
def silentClient : List (Time × SlotEvent Nat (Sealed Nat)) :=
  [(1, .accept {} toyToken), (1, .send 0 [7] 0), (2, .update 1 true), (20, .update 18 true)]

/-- Once it has timed out the slot is reset, and the client that comes next starts with
the credit of the update at 2 less the bits of that message, where a slot never used has a
budget of 0.  It also finds the slow tick put off. -/
theorem reused_slot_keeps_budget :
    let step := fun c ev => (slotStep toyCipher nagleConfig 0 c ev).1
    let reused := run step (.idle toyCipher) (silentClient ++ [(21, .accept {} secondToken)])
    let unused := run step (.idle toyCipher) [(21, .accept {} secondToken)]
    (run step (.idle toyCipher) silentClient).active = false ∧
      reused.sansGeneration ≠ unused.sansGeneration ∧
      reused.budget.queuedBits = -261904 ∧ unused.budget.queuedBits = 0 ∧
      reused.books.nextSlowTick = 21 / 10 ∧ unused.books.nextSlowTick = 0 := by
  refine ⟨by decide +kernel, fun h => ?_, by decide +kernel, by decide +kernel, by decide +kernel,
    by decide +kernel⟩
  have hqueued := congrArg (fun c => c.budget.queuedBits) h
  revert hqueued
  decide +kernel

end Netudp
