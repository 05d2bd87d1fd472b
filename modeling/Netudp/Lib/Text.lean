/-
Numerals and separated lists, as texts hold them.

A numeral is a list of digits, most significant first; `value` says which digit an item of
the text stands for.  The parts of a separated list are found again by the separator, as
long as none of them contains it.
-/
import Mathlib.Algebra.Group.Nat.Defs
import Mathlib.Data.List.Basic

namespace Lib

variable {α : Type*}

/-! ### Numerals -/

section Numerals

variable {value : α → Option Nat} {base : Nat}

/-- The number the digits make up behind those that have made up `number`. -/
def digitsNumber (value : α → Option Nat) (base number : Nat) (digits : List α) : Nat :=
  digits.foldl (fun number digit => number * base + (value digit).getD 0) number

theorem digitsNumber_cons (number : Nat) (digit : α) (digits : List α) :
    digitsNumber value base number (digit :: digits) =
      digitsNumber value base (number * base + (value digit).getD 0) digits := rfl

theorem digitsNumber_append (number : Nat) (front back : List α) :
    digitsNumber value base number (front ++ back) =
      digitsNumber value base (digitsNumber value base number front) back := by
  simp [digitsNumber]

/-- So many digits, so large a number at most. -/
theorem digitsNumber_lt {digits : List α}
    (hdigits : ∀ x ∈ digits, (value x).getD 0 < base) (number : Nat) :
    digitsNumber value base number digits < (number + 1) * base ^ digits.length := by
  induction digits generalizing number with
  | nil => simp [digitsNumber]
  | cons digit digits ih =>
    obtain ⟨hdigit, hothers⟩ := List.forall_mem_cons.mp hdigits
    have hnext : number * base + (value digit).getD 0 + 1 ≤ (number + 1) * base := by
      rw [Nat.succ_mul]
      omega
    calc digitsNumber value base number (digit :: digits)
        < (number * base + (value digit).getD 0 + 1) * base ^ digits.length :=
          ih hothers _
      _ ≤ (number + 1) * base * base ^ digits.length := Nat.mul_le_mul_right _ hnext
      _ = (number + 1) * base ^ (digit :: digits).length := by
          rw [List.length_cons, Nat.pow_succ', Nat.mul_assoc]

variable {glyph : Char → α}

/-- **A printed number is read back**, and all of its digits are digits. -/
theorem digitsNumber_toDigits (hbase : 1 < base)
    (hglyph : ∀ digit < base, value (glyph digit.digitChar) = some digit) (n : Nat) :
    digitsNumber value base 0 ((Nat.toDigits base n).map glyph) = n ∧
      ∀ x ∈ (Nat.toDigits base n).map glyph, (value x).isSome = true := by
  induction n using Nat.strongRecOn with
  | ind n ih =>
    by_cases hsmall : n < base
    · simp [Nat.toDigits_of_lt_base hsmall, digitsNumber, hglyph n hsmall]
    · have hle : base ≤ n := Nat.le_of_not_lt hsmall
      have hless : n / base < n := Nat.div_lt_self (by omega) hbase
      have hlast : n % base < base := Nat.mod_lt n (by omega)
      obtain ⟨hread, hdigits⟩ := ih _ hless
      rw [Nat.toDigits_of_base_le hbase hle, List.map_append, digitsNumber_append, hread,
        List.forall_mem_append]
      refine ⟨?_, hdigits, by simp [hglyph _ hlast]⟩
      simp [digitsNumber, hglyph _ hlast, Nat.div_add_mod']

end Numerals

/-! ### Separated lists -/

section Separated

variable {sep : α} {parts : List (List α)}

/-- The parts with a separator before each. -/
def led (sep : α) (parts : List (List α)) : List α := parts.flatMap (sep :: ·)

@[simp] theorem led_nil : led sep [] = [] := rfl

@[simp] theorem led_cons (part : List α) :
    led sep (part :: parts) = sep :: (part ++ led sep parts) := by
  simp [led]

/-- The first part is the one without a separator before it. -/
theorem intercalate_cons (part : List α) :
    [sep].intercalate (part :: parts) = part ++ led sep parts := by
  induction parts generalizing part with
  | nil => simp
  | cons next parts ih => simp [List.intercalate_cons_cons, ih]

theorem of_mem_intercalate {x : α} (h : x ∈ [sep].intercalate parts) :
    x = sep ∨ ∃ part ∈ parts, x ∈ part := by
  induction parts with
  | nil => simp at h
  | cons part parts ih =>
    cases parts with
    | nil => exact Or.inr ⟨part, by simp, by simpa using h⟩
    | cons next parts =>
      rw [List.intercalate_cons_cons, List.mem_append, List.mem_append,
        List.mem_singleton] at h
      rcases h with (hpart | hsep) | hrest
      · exact Or.inr ⟨part, by simp, hpart⟩
      · exact Or.inl hsep
      · rcases ih hrest with hsep | ⟨other, hother, hx⟩
        · exact Or.inl hsep
        · exact Or.inr ⟨other, List.mem_cons_of_mem _ hother, hx⟩

theorem length_led_le {n : Nat} (hparts : ∀ part ∈ parts, part.length ≤ n) :
    (led sep parts).length ≤ parts.length * (n + 1) := by
  induction parts with
  | nil => simp
  | cons part parts ih =>
    obtain ⟨hpart, hothers⟩ := List.forall_mem_cons.mp hparts
    have hrest := ih hothers
    simp only [led_cons, List.length_cons, List.length_append, Nat.succ_mul]
    omega

theorem length_intercalate_le {n : Nat} (hparts : ∀ part ∈ parts, part.length ≤ n) :
    ([sep].intercalate parts).length ≤ parts.length * (n + 1) - 1 := by
  cases parts with
  | nil => simp
  | cons part parts =>
    have hled : (led sep (part :: parts)).length ≤ (part :: parts).length * (n + 1) :=
      length_led_le hparts
    simp only [led_cons, List.length_cons] at hled
    rw [intercalate_cons, List.length_cons]
    omega

theorem length_le_intercalate (hparts : ∀ part ∈ parts, part ≠ []) :
    parts.length ≤ ([sep].intercalate parts).length := by
  have hled : ∀ parts : List (List α), parts.length ≤ (led sep parts).length := by
    intro parts
    induction parts with
    | nil => simp
    | cons part parts ih =>
      simp only [led_cons, List.length_cons, List.length_append]
      omega
  cases parts with
  | nil => simp
  | cons part parts =>
    have hpart := List.length_pos_iff.mpr (hparts part (by simp))
    have hrest := hled parts
    rw [intercalate_cons, List.length_append, List.length_cons]
    omega

theorem takeWhile_ne_append [DecidableEq α] {front : List α} (hfront : sep ∉ front)
    (back : List α) : (front ++ sep :: back).takeWhile (· ≠ sep) = front := by
  have hne : ∀ x ∈ front, decide (x ≠ sep) = true := by
    intro x hx
    exact decide_eq_true (fun h => hfront (h ▸ hx))
  rw [List.takeWhile_append_of_pos hne]
  simp

theorem dropWhile_ne_append [DecidableEq α] {front : List α} (hfront : sep ∉ front)
    (back : List α) : (front ++ sep :: back).dropWhile (· ≠ sep) = sep :: back := by
  have hne : ∀ x ∈ front, decide (x ≠ sep) = true := by
    intro x hx
    exact decide_eq_true (fun h => hfront (h ▸ hx))
  rw [List.dropWhile_append_of_pos hne]
  simp

theorem exists_last_of_mem {text : List α} (h : sep ∈ text) :
    ∃ front back, text = front ++ sep :: back ∧ sep ∉ back := by
  obtain ⟨back, front, hsplit, hback⟩ := List.eq_append_cons_of_mem (List.mem_reverse.mpr h)
  refine ⟨front.reverse, back.reverse, ?_, by simpa using hback⟩
  rw [← List.reverse_reverse text, hsplit]
  simp

end Separated

end Lib
