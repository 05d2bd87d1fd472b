/-
Lists cut into blocks.

Block `i` of a list is its elements from `i * p` on, `p` of them or what is left.  Sending
a message in pieces of a fixed size and putting the pieces back where they belong needs
two things of it: how long a block is, and that the blocks one after another are the list.
-/
import Mathlib.Data.List.Basic

namespace Lib

variable {α : Type*}

/-- Block `i` of the list, in blocks of `p`. -/
def block (p : Nat) (l : List α) (i : Nat) : List α :=
  (l.drop (i * p)).take p

theorem length_block (p : Nat) (l : List α) (i : Nat) :
    (block p l i).length = min p (l.length - i * p) := by
  rw [block, List.length_take, List.length_drop]

/-- A block ends within the list if it begins there. -/
theorem block_end_le (p : Nat) (l : List α) {i : Nat} (h : i * p ≤ l.length) :
    i * p + (block p l i).length ≤ l.length := by
  rw [length_block]
  omega

/-- The first `n` blocks, one after another, are the front of the list. -/
theorem flatMap_block (p : Nat) (l : List α) (n : Nat) :
    (List.range n).flatMap (block p l) = l.take (n * p) := by
  induction n with
  | zero => simp
  | succ n ih =>
    rw [List.range_succ, List.flatMap_append, ih, List.flatMap_singleton, Nat.succ_mul,
      List.take_add, block]

end Lib
