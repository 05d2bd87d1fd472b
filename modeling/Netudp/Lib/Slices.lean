/-
Slices of a list.

Work is shared out by cutting a list at increasing positions, each part going to one worker
or to one turn.  `flatMap_slices` puts the parts together again; `perm_turns` says that `n`
turns in a row, whichever comes first, are all of them.
-/
import Mathlib.Data.List.Nodup
import Mathlib.Data.List.Range
import Mathlib.Data.List.Perm.Subperm
import Mathlib.Data.Nat.ModEq

namespace Lib

variable {α : Type*}

/-- The part of a list between two positions. -/
def slice (xs : List α) (start stop : Nat) : List α :=
  (xs.drop start).take (stop - start)

theorem slice_take (xs : List α) {start stop : Nat} (h : start ≤ stop) :
    xs.take start ++ slice xs start stop = xs.take stop := by
  rw [slice, ← List.take_add, Nat.add_sub_cancel' h]

theorem slice_range {start stop n : Nat} (h : stop ≤ n) :
    slice (List.range n) start stop = List.range' start (stop - start) := by
  rw [slice, List.range_eq_range', List.drop_range', List.take_range'_of_length_ge (by omega),
    Nat.mul_one, Nat.zero_add]

/-- **Parts that begin where the one before ends are the whole.** -/
theorem flatMap_slices (xs : List α) (cut : Nat → Nat) (hzero : cut 0 = 0) (n : Nat)
    (hmono : ∀ i < n, cut i ≤ cut (i + 1)) :
    (List.range n).flatMap (fun i => slice xs (cut i) (cut (i + 1))) = xs.take (cut n) := by
  induction n with
  | zero => rw [hzero, List.take_zero, List.range_zero, List.flatMap_nil]
  | succ n ih =>
    rw [List.range_succ, List.flatMap_append, List.flatMap_singleton,
      ih fun i hi => hmono i (by omega), slice_take xs (hmono n (by omega))]

/-- The turns from `k` on, `n` of them, are each of the `n` once. -/
theorem perm_turns (n k : Nat) :
    ((List.range n).map fun j => (k + j) % n).Perm (List.range n) := by
  have hnodup : ((List.range n).map fun j => (k + j) % n).Nodup := by
    refine List.Nodup.map_on ?_ List.nodup_range
    intro i hi j hj heq
    have hmod : i ≡ j [MOD n] := Nat.ModEq.add_left_cancel' k heq
    exact Nat.ModEq.eq_of_lt_of_lt hmod (List.mem_range.mp hi) (List.mem_range.mp hj)
  refine (hnodup.subperm ?_).perm_of_length_le ?_
  · intro i hi
    obtain ⟨j, hj, rfl⟩ := List.mem_map.mp hi
    have hpos : 0 < n := Nat.zero_lt_of_lt (List.mem_range.mp hj)
    exact List.mem_range.mpr (Nat.mod_lt _ hpos)
  · rw [List.length_map]

end Lib
