/-
Lists threaded through memory.

An intrusive list has its links in the memory of its nodes: the head is the address of the
first node, each node holds the address of the next, and zero is the end.  `Threaded` says
which nodes such a list has.  Taking the first node and putting one in front leave the
links of the others alone, and that is all they need of the memory.
-/
import Mathlib.Data.List.Range

namespace Lib

/-- From `head` on, `next` leads through the nodes and then to zero. -/
def Threaded (next : Nat → Nat) : Nat → List Nat → Prop
  | head, [] => head = 0
  | head, a :: rest => head = a ∧ a ≠ 0 ∧ Threaded next (next a) rest

variable {next next' : Nat → Nat} {head : Nat} {nodes : List Nat}

/-- Only the links of the nodes matter. -/
theorem Threaded.congr (h : Threaded next head nodes) (heq : ∀ a ∈ nodes, next' a = next a) :
    Threaded next' head nodes := by
  induction nodes generalizing head with
  | nil => exact h
  | cons a rest ih =>
    obtain ⟨hhead, hne, hrest⟩ := h
    refine ⟨hhead, hne, ?_⟩
    rw [heq a List.mem_cons_self]
    exact ih hrest fun b hb => heq b (List.mem_cons_of_mem a hb)

theorem Threaded.push (h : Threaded next head nodes) {a : Nat} (hne : a ≠ 0)
    (hlink : next' a = head) (heq : ∀ b ∈ nodes, next' b = next b) :
    Threaded next' a (a :: nodes) := by
  refine ⟨rfl, hne, ?_⟩
  rw [hlink]
  exact h.congr heq

theorem threaded_range (node : Nat → Nat) (n : Nat) (hne : ∀ i < n, node i ≠ 0)
    (hlink : ∀ i < n, next (node i) = if i + 1 < n then node (i + 1) else 0) :
    ∀ k i, i + k = n →
      Threaded next (if i < n then node i else 0) ((List.range' i k).map node) := by
  intro k
  induction k with
  | zero =>
    intro i hi
    rw [if_neg (by omega)]
    rfl
  | succ k ih =>
    intro i hi
    have hlt : i < n := by omega
    rw [if_pos hlt, List.range'_succ, List.map_cons]
    refine ⟨rfl, hne i hlt, ?_⟩
    rw [hlink i hlt]
    exact ih (i + 1) (by omega)

end Lib
