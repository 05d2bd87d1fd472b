/-
Serial numbers.

A counter kept modulo `size` is compared by the signed residue of the difference.
For two counters less than half of `size` apart that residue is the true
difference, however often either of them has wrapped.  A loop that counts one of them
up to the other ends after `ahead` rounds, which is less than `size`.
-/
import Netudp.Lib.Table
import Mathlib.Data.Int.ModEq

namespace Lib

/-- The signed difference of two counters kept modulo `size`. -/
def serialDiff (size a b : Nat) : Int :=
  Int.bmod ((a : Int) - b) size

/-- Nearby counters are compared as if they had never wrapped. -/
theorem serialDiff_mod {size a b : Nat} (hlow : -(size : Int) ≤ 2 * ((a : Int) - b))
    (hhigh : 2 * ((a : Int) - b) < size) : serialDiff size (a % size) (b % size) = a - b := by
  unfold serialDiff
  rw [Int.natCast_mod, Int.natCast_mod, Int.sub_bmod, Int.emod_bmod, Int.emod_bmod,
    ← Int.sub_bmod]
  exact Int.bmod_eq_of_le_mul_two (by omega) (by omega)

/-- The numbers lie in a stretch of the given width. -/
def Spans (width base : Nat) (is : List Nat) : Prop :=
  ∀ i ∈ is, base ≤ i ∧ i < base + width

/-- In a stretch no wider than `size`, a number is known by its residue. -/
theorem Spans.eq_of_mod {size width base : Nat} {is : List Nat} (h : Spans width base is)
    (hwidth : width ≤ size) {i j : Nat} (hi : i ∈ is) (hj : j ∈ is) (hmod : i % size = j % size) :
    i = j := by
  obtain ⟨hi1, hi2⟩ := h i hi
  obtain ⟨hj1, hj2⟩ := h j hj
  rcases eq_or_far_of_mod_eq hmod with heq | hfar | hfar
  · exact heq
  · omega
  · omega

/-- How many times `a` is to be counted up to reach `b`. -/
def ahead (size a b : Nat) : Nat :=
  (b + size - a) % size

theorem ahead_lt {size : Nat} (hsize : 0 < size) (a b : Nat) : ahead size a b < size :=
  Nat.mod_lt _ hsize

/-- Counters less than `size` apart are ahead of each other by their true distance. -/
theorem ahead_mod {size a b : Nat} (hle : a ≤ b) (hlt : b < a + size) :
    ahead size (a % size) (b % size) = b - a := by
  have hpos : 0 < size := by omega
  have ha := Nat.mod_lt a hpos
  have hsum : (a % size + (b - a)) % size = b % size := by
    rw [Nat.mod_add_mod, Nat.add_sub_cancel' hle]
  unfold ahead
  rcases Nat.lt_or_ge (a % size + (b - a)) size with hsmall | hbig
  · rw [Nat.mod_eq_of_lt hsmall] at hsum
    rw [← hsum, show a % size + (b - a) + size - a % size = b - a + size by omega,
      Nat.add_mod_right, Nat.mod_eq_of_lt (by omega)]
  · rw [Nat.mod_eq_sub_mod hbig, Nat.mod_eq_of_lt (by omega)] at hsum
    rw [← hsum, show a % size + (b - a) - size + size - a % size = b - a by omega,
      Nat.mod_eq_of_lt (by omega)]

theorem ahead_succ {size a b : Nat} (ha : a < size) (hb : b < size) (hne : a ≠ b) :
    ahead size ((a + 1) % size) b + 1 = ahead size a b := by
  unfold ahead
  rcases Nat.lt_or_ge a b with hlt | hge
  · rw [Nat.mod_eq_of_lt (show a + 1 < size by omega),
      show b + size - (a + 1) = b - (a + 1) + size by omega,
      show b + size - a = b - a + size by omega, Nat.add_mod_right, Nat.add_mod_right,
      Nat.mod_eq_of_lt (by omega), Nat.mod_eq_of_lt (by omega)]
    omega
  · rw [Nat.mod_eq_of_lt (show b + size - a < size by omega)]
    rcases Nat.lt_or_ge (a + 1) size with hsmall | hbig
    · rw [Nat.mod_eq_of_lt hsmall, Nat.mod_eq_of_lt (by omega)]
      omega
    · rw [show a + 1 = size by omega, Nat.mod_self, Nat.sub_zero, Nat.add_mod_right,
        Nat.mod_eq_of_lt hb]
      omega

end Lib
