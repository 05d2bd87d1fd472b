/-
Rows of one array.

A table of `n` columns kept in one array has its row `i` from position `i * n` on.  A column
in range is in its own row and in no other, so a write to one row is not seen in the others;
a column out of range is in some other row.
-/
import Mathlib.Tactic.Ring

namespace Lib

variable {α : Type*} {n i j k l : Nat}

/-- Where a column of a row is. -/
def rowAt (n i : Nat) (k : Int) : Int := (i * n : Nat) + k

theorem rowAt_inj (hk : k < n) (hl : l < n) (h : rowAt n i k = rowAt n j l) : i = j ∧ k = l := by
  have hnat : k + n * i = l + n * j := by
    unfold rowAt at h
    rw [Nat.mul_comm i, Nat.mul_comm j] at h
    omega
  have hpos : 0 < n := Nat.zero_lt_of_lt hk
  constructor
  · have hdiv := congrArg (· / n) hnat
    simpa [Nat.add_mul_div_left _ _ hpos, Nat.div_eq_of_lt hk, Nat.div_eq_of_lt hl] using hdiv
  · have hmod := congrArg (· % n) hnat
    simpa [Nat.add_mul_mod_self_left, Nat.mod_eq_of_lt hk, Nat.mod_eq_of_lt hl] using hmod

theorem update_row (m : Int → α) (v : α) (hk : k < n) (hl : l < n) :
    Function.update m (rowAt n i k) v (rowAt n j l) =
      if j = i ∧ l = k then v else m (rowAt n j l) := by
  rw [Function.update_apply]
  by_cases hsame : j = i ∧ l = k
  · rw [if_pos hsame, hsame.1, hsame.2, if_pos rfl]
  · rw [if_neg hsame, if_neg]
    intro heq
    exact hsame (rowAt_inj hl hk heq)

theorem update_other_row (m : Int → α) (v : α) (hk : k < n) (hl : l < n) (hj : j ≠ i) :
    Function.update m (rowAt n i k) v (rowAt n j l) = m (rowAt n j l) := by
  rw [update_row m v hk hl, if_neg fun hsame => hj hsame.1]

/-- No place of one row is among those of another. -/
theorem rowAt_not_mem (hl : l < n) (hj : j ≠ i) :
    ¬ (((i * n : Nat) : Int) ≤ rowAt n j l ∧ rowAt n j l < (i * n : Nat) + n) := by
  rintro ⟨hlow, hhigh⟩
  obtain ⟨k, hk⟩ := Int.eq_ofNat_of_zero_le (Int.sub_nonneg.mpr hlow)
  have heq : rowAt n j l = rowAt n i k := Int.sub_eq_iff_eq_add'.mp hk
  exact hj (rowAt_inj hl (by omega) heq).1

theorem foldl_update_other_row (addr : Nat → Int) (v : α) (hl : l < n) (hj : j ≠ i) :
    ∀ (is : List Nat) (m : Int → α), (∀ q ∈ is, ∃ k < n, addr q = rowAt n i (k : Nat)) →
      is.foldl (fun m q => Function.update m (addr q) v) m (rowAt n j l) = m (rowAt n j l) := by
  intro is
  induction is with
  | nil => exact fun _ _ => rfl
  | cons q is ih =>
    intro m haddr
    obtain ⟨k, hk, heq⟩ := haddr q List.mem_cons_self
    rw [List.foldl_cons, ih _ fun q' hq' => haddr q' (List.mem_cons_of_mem q hq'), heq,
      update_other_row m v hk hl hj]

end Lib
