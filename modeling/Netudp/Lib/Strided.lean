/-
Loops with a stride.

A loop over an array that takes `w` items at a time, as long as that many are left, is
followed by one that takes the rest singly.  If a wide round does what `w` single rounds
would have done, the two together are the plain loop, wherever the first one stops.  The
same for loops that look for something and return when they find it.
-/
import Mathlib.Data.List.Range

namespace Lib

variable {σ : Type*}

/-! ### Loops that go to the end -/

/-- `for (; i + (w - 1) < len; i += w) body`: where `i` ends, and the state.  `len` rounds are
enough. -/
def strided (w len : Nat) (body : Nat → σ → σ) : Nat → Nat → σ → Nat × σ
  | 0, i, s => (i, s)
  | fuel + 1, i, s =>
    if i + (w - 1) < len then strided w len body fuel (i + w) (body i s) else (i, s)

/-- `n` single rounds from `i` on. -/
def each (body : Nat → σ → σ) (i n : Nat) (s : σ) : σ :=
  (List.range' i n).foldl (fun s j => body j s) s

@[simp] theorem each_zero (body : Nat → σ → σ) (i : Nat) (s : σ) : each body i 0 s = s := rfl

theorem each_succ (body : Nat → σ → σ) (i n : Nat) (s : σ) :
    each body i (n + 1) s = each body (i + 1) n (body i s) := by
  rw [each, List.range'_succ, List.foldl_cons, each]

theorem each_add (body : Nat → σ → σ) (i m n : Nat) (s : σ) :
    each body i (m + n) s = each body (i + m) n (each body i m s) := by
  induction m generalizing i s with
  | zero => rw [Nat.zero_add, Nat.add_zero, each_zero]
  | succ m ih => rw [Nat.succ_add, each_succ, each_succ, ih, Nat.succ_add_eq_add_succ]

theorem each_congr {body body' : Nat → σ → σ} {i n : Nat}
    (h : ∀ j s, i ≤ j → j < i + n → body j s = body' j s) (s : σ) :
    each body i n s = each body' i n s := by
  induction n generalizing i s with
  | zero => rfl
  | succ n ih =>
    rw [each_succ, each_succ, h i s (Nat.le_refl i) (by omega)]
    exact ih (fun j s hlow hhigh => h j s (by omega) (by omega)) _

theorem each_filter (p : Nat → Bool) (i n : Nat) (found : List Nat) :
    each (fun j found => if p j then found ++ [j] else found) i n found =
      found ++ (List.range' i n).filter p := by
  induction n generalizing i found with
  | zero => simp
  | succ n ih =>
    rw [each_succ, ih, List.range'_succ, List.filter_cons]
    split
    · rw [List.append_assoc, List.singleton_append]
    · rfl

/-- **A wide loop is single rounds up to where it stops**, which is so close to the end that
no wide round is left. -/
theorem strided_spec {w len : Nat} {wide body : Nat → σ → σ} (hw : 0 < w)
    (hbody : ∀ i s, i + w ≤ len → wide i s = each body i w s) :
    ∀ (fuel i : Nat) (s : σ), i ≤ len → len ≤ i + fuel →
      ∃ n, i + n ≤ len ∧ len < i + n + w ∧
        strided w len wide fuel i s = (i + n, each body i n s) := by
  intro fuel
  induction fuel with
  | zero =>
    intro i s hle hfuel
    exact ⟨0, hle, by omega, rfl⟩
  | succ fuel ih =>
    intro i s hle hfuel
    rw [strided]
    split
    · rename_i hround
      obtain ⟨n, hend, hlast, heq⟩ := ih (i + w) (wide i s) (by omega) (by omega)
      refine ⟨w + n, by omega, by omega, ?_⟩
      rw [heq, hbody i s (by omega), each_add, Nat.add_assoc]
    · exact ⟨0, hle, by omega, rfl⟩

theorem strided_one (body : Nat → σ → σ) (len fuel : Nat) {i : Nat} (s : σ) (hle : i ≤ len)
    (hfuel : len ≤ i + fuel) : strided 1 len body fuel i s = (len, each body i (len - i) s) := by
  have hsingle : ∀ i s, i + 1 ≤ len → body i s = each body i 1 s := fun _ _ _ => rfl
  obtain ⟨n, hend, hlast, heq⟩ := strided_spec Nat.one_pos hsingle fuel i s hle hfuel
  obtain rfl : n = len - i := by omega
  rw [heq, Nat.add_sub_of_le hle]

/-- **The wide loop and the single one together are the plain loop.** -/
theorem strided_tail {w len : Nat} {wide body : Nat → σ → σ} (hw : 0 < w)
    (hbody : ∀ i s, i + w ≤ len → wide i s = each body i w s) (fuel fuel' : Nat) {i : Nat} (s : σ)
    (hle : i ≤ len) (hfuel : len ≤ i + fuel) (hfuel' : len ≤ fuel') :
    strided 1 len body fuel' (strided w len wide fuel i s).1 (strided w len wide fuel i s).2 =
      (len, each body i (len - i) s) := by
  obtain ⟨n, hend, -, heq⟩ := strided_spec hw hbody fuel i s hle hfuel
  rw [heq, strided_one body len fuel' _ hend (by omega), ← each_add,
    show n + (len - (i + n)) = len - i by omega]

/-! ### Loops that look for something -/

/-- `for (; i + (w - 1) < len; i += w) if (hit(i)) return`: `none` if it returned, and else
where `i` ends. -/
def search (w len : Nat) (hit : Nat → Bool) : Nat → Nat → Option Nat
  | 0, i => some i
  | fuel + 1, i =>
    if i + (w - 1) < len then
      if hit i then none else search w len hit fuel (i + w)
    else some i

/-- There is a hit among `n` items from `i` on. -/
def hits (hit : Nat → Bool) (i n : Nat) : Bool := (List.range' i n).any hit

theorem hits_add (hit : Nat → Bool) (i m n : Nat) :
    hits hit i (m + n) = (hits hit i m || hits hit (i + m) n) := by
  rw [hits, ← List.range'_append_1, List.any_append, hits, hits]

/-- **A wide search returns if it meets a hit**, and else stops with no wide round left. -/
theorem search_spec {w len : Nat} {wide hit : Nat → Bool} (hw : 0 < w)
    (hbody : ∀ i, i + w ≤ len → wide i = hits hit i w) :
    ∀ (fuel i : Nat), i ≤ len → len ≤ i + fuel →
      (search w len wide fuel i = none ∧ hits hit i (len - i) = true) ∨
      ∃ n, i + n ≤ len ∧ len < i + n + w ∧ search w len wide fuel i = some (i + n) ∧
        hits hit i n = false := by
  intro fuel
  induction fuel with
  | zero =>
    intro i hle hfuel
    exact Or.inr ⟨0, hle, by omega, rfl, rfl⟩
  | succ fuel ih =>
    intro i hle hfuel
    rw [search]
    split
    · rename_i hround
      have hsplit : hits hit i (len - i) =
          (hits hit i w || hits hit (i + w) (len - (i + w))) := by
        rw [← hits_add, show w + (len - (i + w)) = len - i by omega]
      rw [hbody i (by omega)]
      cases hfound : hits hit i w with
      | true =>
        refine Or.inl ⟨rfl, ?_⟩
        rw [hsplit, hfound, Bool.true_or]
      | false =>
        rcases ih (i + w) (by omega) (by omega) with ⟨hnone, hany⟩ | ⟨n, hend, hlast, heq, hno⟩
        · refine Or.inl ⟨hnone, ?_⟩
          rw [hsplit, hany, Bool.or_true]
        · refine Or.inr ⟨w + n, by omega, by omega, ?_, ?_⟩
          · rw [if_neg Bool.false_ne_true, heq, Nat.add_assoc]
          · rw [hits_add, hfound, hno, Bool.false_or]
    · exact Or.inr ⟨0, hle, by omega, rfl, rfl⟩

theorem search_one (hit : Nat → Bool) (len fuel : Nat) {i : Nat} (hle : i ≤ len)
    (hfuel : len ≤ i + fuel) :
    search 1 len hit fuel i = if hits hit i (len - i) then none else some len := by
  have hsingle : ∀ i, i + 1 ≤ len → hit i = hits hit i 1 := fun i _ => by simp [hits]
  rcases search_spec Nat.one_pos hsingle fuel i hle hfuel with
    ⟨hnone, hany⟩ | ⟨n, hend, hlast, heq, hno⟩
  · rw [hnone, if_pos hany]
  · obtain rfl : n = len - i := by omega
    rw [heq, hno, Nat.add_sub_of_le hle, if_neg Bool.false_ne_true]

/-- **The wide search and the single one together are the plain search.** -/
theorem search_tail {w len : Nat} {wide hit : Nat → Bool} (hw : 0 < w)
    (hbody : ∀ i, i + w ≤ len → wide i = hits hit i w) (fuel fuel' : Nat) {i : Nat}
    (hle : i ≤ len) (hfuel : len ≤ i + fuel) (hfuel' : len ≤ fuel') :
    (search w len wide fuel i).bind (search 1 len hit fuel') =
      if hits hit i (len - i) then none else some len := by
  rcases search_spec hw hbody fuel i hle hfuel with ⟨hnone, hany⟩ | ⟨n, hend, -, heq, hno⟩
  · rw [hnone, if_pos hany]
    rfl
  · rw [heq]
    show search 1 len hit fuel' (i + n) = _
    rw [search_one hit len fuel' hend (by omega), show len - i = n + (len - (i + n)) by omega,
      hits_add, hno, Bool.false_or]

end Lib
