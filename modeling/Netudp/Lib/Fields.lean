/-
Fields packed in one number.

A word can hold several small numbers next to one another, and one operation on the word
then does something to all of them.  For sums and differences it is the operation on each
field as long as no field overflows; a shift by less than a field mixes neighbours, and a
mask that clears the bits that came in from above puts that right.
-/
import Mathlib.Data.List.Range
import Mathlib.Tactic.Ring

namespace Lib

variable {w : Nat}

/-- Fields of `w` bits, the first one lowest. -/
def pack (w : Nat) : List Nat → Nat
  | [] => 0
  | x :: xs => x + 2 ^ w * pack w xs

theorem testBit_two_fields {a : Nat} (ha : a < 2 ^ w) (b j : Nat) :
    (a + 2 ^ w * b).testBit j = if j < w then a.testBit j else b.testBit (j - w) := by
  rw [Nat.add_comm, Nat.testBit_two_pow_mul_add b ha]

/-! ### Sums and differences -/

theorem pack_add (xs : List Nat) (f g : Nat → Nat) :
    pack w (xs.map f) + pack w (xs.map g) = pack w (xs.map fun x => f x + g x) := by
  induction xs with
  | nil => rfl
  | cons x xs ih =>
    simp only [List.map_cons, pack, ← ih]
    ring

theorem pack_sub (xs : List Nat) (f g : Nat → Nat) (h : ∀ x ∈ xs, g x ≤ f x) :
    pack w (xs.map f) - pack w (xs.map g) = pack w (xs.map fun x => f x - g x) := by
  have hback : pack w (xs.map fun x => f x - g x) + pack w (xs.map g) = pack w (xs.map f) := by
    rw [pack_add]
    congr 1
    refine List.map_congr_left fun x hx => ?_
    exact Nat.sub_add_cancel (h x hx)
  omega

/-! ### Masks -/

/-- **A shift within the fields and a mask** for the bits that stay: both act on each field. -/
theorem pack_shift_mask {s m : Nat} (hs : s ≤ w) (hm : m < 2 ^ (w - s)) (xs : List Nat)
    (hxs : ∀ x ∈ xs, x < 2 ^ w) :
    (pack w xs >>> s) &&& pack w (List.replicate xs.length m) =
      pack w (xs.map fun x => (x >>> s) &&& m) := by
  have hmw : m < 2 ^ w := Nat.lt_of_lt_of_le hm (Nat.pow_le_pow_right (by decide) (Nat.sub_le w s))
  induction xs with
  | nil => simp [pack]
  | cons x xs ih =>
    have hx := hxs x List.mem_cons_self
    have hfield : (x >>> s) &&& m < 2 ^ w := Nat.lt_of_le_of_lt Nat.and_le_right hmw
    rw [List.length_cons, List.replicate_succ, List.map_cons, pack, pack, pack,
      ← ih fun y hy => hxs y (List.mem_cons_of_mem x hy)]
    refine Nat.eq_of_testBit_eq fun j => ?_
    rw [Nat.testBit_and, Nat.testBit_shiftRight, testBit_two_fields hx, testBit_two_fields hmw,
      testBit_two_fields hfield]
    by_cases hj : j < w
    · rw [if_pos hj, if_pos hj, Nat.testBit_and, Nat.testBit_shiftRight]
      -- Bits that come in from the next field meet zeros of the mask.
      by_cases hin : s + j < w
      · rw [if_pos hin]
      · have hzero : m.testBit j = false :=
          Nat.testBit_lt_two_pow (Nat.lt_of_lt_of_le hm
            (Nat.pow_le_pow_right (by decide) (by omega)))
        rw [hzero, Bool.and_false, Bool.and_false]
    · rw [if_neg hj, if_neg hj, if_neg (by omega), Nat.testBit_and, Nat.testBit_shiftRight,
        show s + j - w = s + (j - w) by omega]

theorem pack_mask {m : Nat} (hm : m < 2 ^ w) (xs : List Nat) (hxs : ∀ x ∈ xs, x < 2 ^ w) :
    pack w xs &&& pack w (List.replicate xs.length m) = pack w (xs.map fun x => x &&& m) :=
  pack_shift_mask (Nat.zero_le w) (by rwa [Nat.sub_zero]) xs hxs

/-! ### One field after another -/

theorem or_shiftLeft {acc s : Nat} (hacc : acc < 2 ^ s) (n : Nat) :
    acc ||| n <<< s = acc + n * 2 ^ s := by
  rw [Nat.shiftLeft_eq, Nat.or_comm, Nat.mul_comm, ← Nat.two_pow_add_eq_or_of_lt hacc, Nat.add_comm]

theorem mul_two_pow_or {low s : Nat} (hlow : low < 2 ^ s) (n : Nat) :
    n * 2 ^ s ||| low = n * 2 ^ s + low := by
  rw [Nat.or_comm, ← Nat.shiftLeft_eq, or_shiftLeft hlow, Nat.shiftLeft_eq, Nat.add_comm]

/-- With a field of `w` bits there are `w` bits more. -/
theorem add_field_lt {acc s x : Nat} (hacc : acc < 2 ^ s) (hx : x < 2 ^ w) :
    acc + x * 2 ^ s < 2 ^ (s + w) := by
  have hfield := Nat.mul_le_mul_right (2 ^ s) hx
  rw [Nat.succ_mul] at hfield
  rw [Nat.pow_add, Nat.mul_comm (2 ^ s)]
  omega

theorem add_field_rest (acc n s w : Nat) :
    acc + n % 2 ^ w * 2 ^ s + n / 2 ^ w * 2 ^ (s + w) = acc + n * 2 ^ s := by
  calc acc + n % 2 ^ w * 2 ^ s + n / 2 ^ w * 2 ^ (s + w)
      = acc + (n % 2 ^ w + 2 ^ w * (n / 2 ^ w)) * 2 ^ s := by ring
    _ = acc + n * 2 ^ s := by rw [Nat.mod_add_div]

/-! ### Set bits -/

/-- The set bits among the first `n`. -/
def setBits (n x : Nat) : Nat := (List.range n).countP x.testBit

theorem setBits_pack (xs : List Nat) (hxs : ∀ x ∈ xs, x < 2 ^ w) :
    setBits (w * xs.length) (pack w xs) = (xs.map (setBits w)).sum := by
  induction xs with
  | nil => rfl
  | cons x xs ih =>
    have hx := hxs x List.mem_cons_self
    rw [List.map_cons, List.sum_cons, ← ih fun y hy => hxs y (List.mem_cons_of_mem x hy),
      List.length_cons, Nat.mul_succ, Nat.add_comm (w * xs.length), setBits, List.range_add,
      List.countP_append, List.countP_map]
    congr 1
    · refine List.countP_congr fun j hj => ?_
      rw [pack, testBit_two_fields hx, if_pos (List.mem_range.mp hj)]
    · refine List.countP_congr fun j _ => ?_
      rw [Function.comp_apply, pack, testBit_two_fields hx, if_neg (by omega), Nat.add_sub_cancel_left]

theorem setBits_of_lt {n x : Nat} (h : x < 2 ^ n) (k : Nat) : setBits (n + k) x = setBits n x := by
  rw [setBits, List.range_add, List.countP_append, List.countP_map, setBits]
  refine Nat.add_eq_left.mpr (List.countP_eq_zero.mpr fun j _ => ?_)
  have hzero : x.testBit (n + j) = false :=
    Nat.testBit_lt_two_pow (Nat.lt_of_lt_of_le h (Nat.pow_le_pow_right (by decide) (by omega)))
  simp [hzero]

theorem setBits_le (n x : Nat) : setBits n x ≤ n := by
  have hle := List.countP_le_length (p := x.testBit) (l := List.range n)
  rwa [List.length_range] at hle

end Lib
