/-
Memory as a function of the address.

An array lies in a memory that goes on before and behind it, and a pointer that leaves the
array is still in that memory.  `store` is a `memcpy` to an address and `load` one from it.
A store changes its own range and nothing else, which is what every statement about it
comes down to.
-/
import Mathlib.Data.List.Range

namespace Lib

variable {α : Type*} (m : Int → α) (src : Nat → α)

/-- `n` items copied to the address. -/
def store (m : Int → α) (at_ : Int) (n : Nat) (src : Nat → α) : Int → α :=
  fun i => if at_ ≤ i ∧ i < at_ + n then src (i - at_).toNat else m i

/-- The `n` items from the address on. -/
def load (m : Int → α) (at_ : Int) (n : Nat) : List α :=
  (List.range n).map fun k : Nat => m (at_ + k)

@[simp] theorem length_load (at_ : Int) (n : Nat) : (load m at_ n).length = n := by
  simp [load]

theorem store_of_not_mem {at_ i : Int} {n : Nat} (h : ¬ (at_ ≤ i ∧ i < at_ + n)) :
    store m at_ n src i = m i :=
  if_neg h

theorem load_store_self (at_ : Int) (n : Nat) :
    load (store m at_ n src) at_ n = (List.range n).map src := by
  refine List.map_congr_left fun k hk => ?_
  have hlt := List.mem_range.mp hk
  rw [store, if_pos (by omega)]
  congr 1
  omega

variable {m} in
/-- A load looks at its own range only. -/
theorem load_congr {m' : Int → α} {a : Int} {k : Nat} (h : ∀ j : Nat, j < k → m (a + j) = m' (a + j)) :
    load m a k = load m' a k :=
  List.map_congr_left fun j hj => h j (List.mem_range.mp hj)

theorem load_store_apart {at_ a : Int} {n k : Nat} (h : a + k ≤ at_ ∨ at_ + n ≤ a) :
    load (store m at_ n src) a k = load m a k :=
  load_congr fun _ _ => store_of_not_mem m src (by omega)

theorem load_append (a : Int) (j k : Nat) :
    load m a (j + k) = load m a j ++ load m (a + j) k := by
  rw [load, List.range_add, List.map_append, List.map_map]
  congr 1
  refine List.map_congr_left fun i _ => ?_
  rw [Function.comp_apply, Int.natCast_add, Int.add_assoc]

theorem map_getD_range (xs : List α) (blank : α) :
    (List.range xs.length).map (xs.getD · blank) = xs := by
  refine List.ext_getElem (by simp) fun i _ hi => ?_
  simp [hi]

end Lib
