/-
Tables addressed by a residue.

A window over an unbounded sequence is often kept in a fixed array of `n` cells,
key `k` living in cell `k mod n`.  Two keys less than `n` apart never share a
cell, and that is all a proof about such a window ever needs of the array.
-/
import Mathlib.Data.Fintype.Basic
import Mathlib.Data.Nat.ModEq

namespace Lib

/-- `n` cells, key `k` living in cell `k mod n`. -/
@[ext] structure Table (n : Nat) (α : Type*) where
  cells : Fin n → α

namespace Table

variable {n : Nat} [NeZero n] {α : Type*}

/-- The table with every cell holding `a`. -/
def fill (a : α) : Table n α := ⟨fun _ => a⟩

/-- The content of the cell of key `k`. -/
def get (t : Table n α) (k : Nat) : α := t.cells (Fin.ofNat n k)

/-- Overwrite the cell of key `k`. -/
def set (t : Table n α) (k : Nat) (a : α) : Table n α :=
  ⟨Function.update t.cells (Fin.ofNat n k) a⟩

@[simp] theorem get_fill (a : α) (k : Nat) : (fill a : Table n α).get k = a := rfl

theorem ofNat_eq_iff (j k : Nat) : Fin.ofNat n j = Fin.ofNat n k ↔ j % n = k % n := by
  simp [Fin.ext_iff, Fin.ofNat]

theorem get_set (t : Table n α) (k j : Nat) (a : α) :
    (t.set k a).get j = if j % n = k % n then a else t.get j := by
  simp only [get, set, Function.update_apply, ofNat_eq_iff]

@[simp] theorem get_set_self (t : Table n α) (k : Nat) (a : α) : (t.set k a).get k = a := by
  rw [get_set, if_pos rfl]

theorem get_congr (t : Table n α) {j k : Nat} (h : j % n = k % n) : t.get j = t.get k := by
  unfold get
  rw [(ofNat_eq_iff j k).mpr h]

theorem get_set_of_mod_ne (t : Table n α) {k j : Nat} (a : α) (h : j % n ≠ k % n) :
    (t.set k a).get j = t.get j := by
  rw [get_set, if_neg h]

theorem set_set (t : Table n α) (k : Nat) (a b : α) : (t.set k a).set k b = t.set k b := by
  unfold set
  rw [Function.update_idem]

theorem set_congr (t : Table n α) {j k : Nat} (a : α) (h : j % n = k % n) :
    t.set j a = t.set k a := by
  unfold set
  rw [(ofNat_eq_iff j k).mpr h]

theorem set_get_self (t : Table n α) (k : Nat) : t.set k (t.get k) = t := by
  unfold set get
  rw [Function.update_eq_self]

end Table

/-- Two keys of one residue are equal or at least `n` apart. -/
theorem eq_or_far_of_mod_eq {n j k : Nat} (h : j % n = k % n) :
    j = k ∨ j + n ≤ k ∨ k + n ≤ j := by
  rcases Nat.lt_trichotomy j k with hlt | heq | hgt
  · refine Or.inr (Or.inl ?_)
    have hdvd : n ∣ k - j := (Nat.modEq_iff_dvd' hlt.le).mp h
    have := Nat.le_of_dvd (by omega) hdvd
    omega
  · exact Or.inl heq
  · refine Or.inr (Or.inr ?_)
    have hdvd : n ∣ j - k := (Nat.modEq_iff_dvd' hgt.le).mp h.symm
    have := Nat.le_of_dvd (by omega) hdvd
    omega

/-- Keys less than `n` apart have different residues. -/
theorem mod_ne_of_near {n j k : Nat} (hne : j ≠ k) (h1 : j < k + n) (h2 : k < j + n) :
    j % n ≠ k % n := by
  intro h
  rcases eq_or_far_of_mod_eq h with heq | hfar | hfar
  · exact hne heq
  · omega
  · omega

/-! ### Sizes -/

-- The sizes of the tables in use have their instances by name, so that a table of one size is
-- read through the same instance everywhere.
instance neZero_4 : NeZero 4 := ⟨by decide⟩

instance neZero_16 : NeZero 16 := ⟨by decide⟩

instance neZero_33 : NeZero 33 := ⟨by decide⟩

instance neZero_64 : NeZero 64 := ⟨by decide⟩

instance neZero_256 : NeZero 256 := ⟨by decide⟩

instance neZero_2048 : NeZero 2048 := ⟨by decide⟩

instance neZero_4096 : NeZero 4096 := ⟨by decide⟩

/-! ### A stretch of cells -/

namespace Table

variable {n : Nat} [NeZero n] {α : Type*} {t : Table n α} {start len : Nat}

/-- The content of `len` cells in a row, wrapping. -/
def stretch (t : Table n α) (start len : Nat) : List α :=
  (List.range len).map fun i => t.get (start + i)

@[simp] theorem length_stretch : (t.stretch start len).length = len := by
  rw [stretch, List.length_map, List.length_range]

theorem stretch_mod (t : Table n α) (start len : Nat) :
    t.stretch (start % n) len = t.stretch start len := by
  refine List.map_congr_left fun i _ => t.get_congr ?_
  rw [Nat.mod_add_mod]

theorem stretch_succ (t : Table n α) (start len : Nat) :
    t.stretch start (len + 1) = t.get start :: t.stretch (start + 1) len := by
  rw [stretch, List.range_succ_eq_map, List.map_cons, List.map_map, Nat.add_zero, stretch]
  refine congrArg _ (List.map_congr_left fun i _ => ?_)
  exact congrArg t.get (by omega)

/-- A cell that lies within `n` behind the stretch is not one of it. -/
theorem stretch_set_of_outside {k : Nat} (hend : start + len ≤ k) (hnear : k < start + n) (a : α) :
    (t.set k a).stretch start len = t.stretch start len := by
  refine List.map_congr_left fun i hi => ?_
  have hi' : i < len := List.mem_range.mp hi
  exact get_set_of_mod_ne _ _ (mod_ne_of_near (by omega) (by omega) (by omega))

theorem stretch_set_end (hroom : len < n) (a : α) :
    (t.set (start + len) a).stretch start (len + 1) = t.stretch start len ++ [a] := by
  have houtside := stretch_set_of_outside (t := t) (Nat.le_refl (start + len)) (by omega) a
  rw [← houtside, stretch, List.range_succ, List.map_append, List.map_singleton, get_set_self,
    stretch]

end Table

end Lib
