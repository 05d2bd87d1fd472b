/-
A list with the position of each of its elements.

A list that has to give up any element in constant time keeps an index beside it: where
each element is, if it is there at all.  An element is added at the end; it is taken out
by letting the last element take its place.
-/
import Mathlib.Data.List.Nodup

namespace Lib

variable {α : Type*} [DecidableEq α]

/-- The index says where every element of the list is. -/
def Indexes (idx : α → Option Nat) (xs : List α) : Prop :=
  ∀ a p, idx a = some p ↔ xs[p]? = some a

namespace Indexes

variable {idx idx' : α → Option Nat} {xs xs' : List α} {a b : α} {p : Nat}

omit [DecidableEq α] in
theorem mem_iff (h : Indexes idx xs) : a ∈ xs ↔ ∃ p, idx a = some p := by
  rw [List.mem_iff_getElem?]
  exact exists_congr fun p => (h a p).symm

omit [DecidableEq α] in
theorem eq_none_iff (h : Indexes idx xs) : idx a = none ↔ a ∉ xs := by
  rw [h.mem_iff, Option.eq_none_iff_forall_ne_some]
  exact not_exists.symm

omit [DecidableEq α] in
theorem nodup (h : Indexes idx xs) : xs.Nodup := by
  rw [List.nodup_iff_getElem?_ne_getElem?]
  intro i j hij hj heq
  have hj' : xs[j]? = some (xs.get ⟨j, hj⟩) := List.getElem?_eq_getElem hj
  have hi := (h _ i).mpr (heq.trans hj')
  rw [(h _ j).mpr hj'] at hi
  exact Nat.ne_of_gt hij (Option.some.inj hi)

theorem push (h : Indexes idx xs) (ha : a ∉ xs) :
    Indexes (Function.update idx a (some xs.length)) (xs ++ [a]) := by
  intro b p
  by_cases hb : b = a
  · subst hb
    rw [Function.update_self, Option.some.injEq]
    constructor
    · rintro rfl
      exact List.getElem?_concat_length
    · intro hp
      rcases Nat.lt_trichotomy p xs.length with hlt | heq | hgt
      · rw [List.getElem?_append_left hlt] at hp
        exact absurd (List.mem_of_getElem? hp) ha
      · exact heq.symm
      · rw [List.getElem?_eq_none (by simp; omega)] at hp
        cases hp
  · rw [Function.update_of_ne hb, h b p]
    constructor
    · intro hp
      obtain ⟨hlt, -⟩ := List.getElem?_eq_some_iff.mp hp
      rwa [List.getElem?_append_left hlt]
    · intro hp
      rcases Nat.lt_or_ge p xs.length with hlt | hge
      · rwa [List.getElem?_append_left hlt] at hp
      · rw [List.getElem?_append_right hge, List.getElem?_singleton] at hp
        split at hp
        · exact absurd (Option.some.inj hp).symm hb
        · cases hp

/-- The last element, `b`, takes the place of `a`, the list losing its last cell. -/
theorem swapRemove (h : Indexes idx xs) (ha : idx a = some p)
    (hb : xs[xs.length - 1]? = some b)
    (hxs : ∀ q, xs'[q]? =
      if q < xs.length - 1 then (if q = p then some b else xs[q]?) else none)
    (hidx : ∀ c, idx' c = if c = a then none else if c = b then some p else idx c) :
    Indexes idx' xs' := by
  intro c q
  have hap : xs[p]? = some a := (h a p).mp ha
  have hlast : idx b = some (xs.length - 1) := (h b _).mpr hb
  rw [hidx, hxs]
  constructor
  · intro hc
    split at hc
    · cases hc
    rename_i hca
    split at hc
    · -- The moved element: it was not at `p` itself, for that is where `a` was.
      rename_i hcb
      subst hcb
      obtain rfl := Option.some.inj hc
      have hne : p ≠ xs.length - 1 := by
        rintro rfl
        exact hca (Option.some.inj (hb.symm.trans hap))
      obtain ⟨hlt, -⟩ := List.getElem?_eq_some_iff.mp hap
      rw [if_pos (by omega), if_pos rfl]
    · rename_i hcb
      have hcq : xs[q]? = some c := (h c q).mp hc
      obtain ⟨hlt, -⟩ := List.getElem?_eq_some_iff.mp hcq
      have hqp : q ≠ p := by
        rintro rfl
        exact hca (Option.some.inj (hcq.symm.trans hap))
      have hql : q ≠ xs.length - 1 := by
        rintro rfl
        exact hcb (Option.some.inj (hcq.symm.trans hb))
      rw [if_pos (by omega), if_neg hqp]
      exact hcq
  · intro hc
    split at hc
    · rename_i hlt
      split at hc
      · rename_i hqp
        subst hqp
        obtain rfl := Option.some.inj hc
        have hba : b ≠ a := by
          rintro rfl
          have := Option.some.inj (ha.symm.trans hlast)
          omega
        rw [if_neg hba, if_pos rfl]
      · rename_i hqp
        have hcq : idx c = some q := (h c q).mpr hc
        have hca : c ≠ a := by
          rintro rfl
          exact hqp (Option.some.inj (hcq.symm.trans ha))
        have hcb : c ≠ b := by
          rintro rfl
          have := Option.some.inj (hcq.symm.trans hlast)
          omega
        rw [if_neg hca, if_neg hcb]
        exact hcq
    · cases hc

end Indexes

/-! ### Taking an element out -/

/-- The last element takes the place of `a` at `pos`, and the list loses its last cell;
`blank` is what a read past the end would give. -/
def swapOut (blank : α) (xs : List α) (idx : α → Option Nat) (a : α) (pos : Nat) :
    List α × (α → Option Nat) :=
  let last := xs.length - 1
  let (ys, idx') :=
    if pos < last then
      let moved := xs.getD last blank
      (xs.set pos moved, Function.update idx moved (some pos))
    else (xs, idx)
  (ys.take last, Function.update idx' a none)

section SwapOut

variable (blank : α) {xs : List α} {moved : α} {pos : Nat}

theorem length_swapOut_le (xs : List α) (idx : α → Option Nat) (a : α) (pos : Nat) :
    (swapOut blank xs idx a pos).1.length ≤ xs.length := by
  simp only [swapOut, List.length_take]
  omega

theorem length_swapOut (xs : List α) (idx : α → Option Nat) (a : α) (pos : Nat) :
    (swapOut blank xs idx a pos).1.length = xs.length - 1 := by
  simp only [swapOut, List.length_take]
  split
  · rw [List.length_set]
    exact Nat.min_eq_left (Nat.sub_le _ _)
  · exact Nat.min_eq_left (Nat.sub_le _ _)

theorem getElem?_swapOut (idx : α → Option Nat) (a : α) (hlt : pos < xs.length)
    (hmoved : xs[xs.length - 1]? = some moved) (q : Nat) :
    (swapOut blank xs idx a pos).1[q]? =
      if q < xs.length - 1 then (if q = pos then some moved else xs[q]?) else none := by
  simp only [swapOut]
  rw [List.getElem?_take]
  split
  · split
    · rw [List.getElem?_set, List.getD_eq_getElem?_getD, hmoved, Option.getD_some]
      by_cases hq : pos = q
      · simp [hq, hq ▸ hlt]
      · rw [if_neg hq, if_neg (Ne.symm hq)]
    · rw [if_neg (by omega)]
  · rfl

theorem index_swapOut (idx : α → Option Nat) {a : α} (hat : xs[pos]? = some a)
    (hmoved : xs[xs.length - 1]? = some moved) (b : α) :
    (swapOut blank xs idx a pos).2 b =
      if b = a then none else if b = moved then some pos else idx b := by
  simp only [swapOut]
  rw [Function.update_apply]
  split
  · rfl
  · rename_i hb
    split
    · show Function.update idx _ (some pos) b = _
      rw [Function.update_apply, List.getD_eq_getElem?_getD, hmoved, Option.getD_some]
    · -- The element is itself the last one.
      obtain ⟨hlt, -⟩ := List.getElem?_eq_some_iff.mp hat
      have hend : pos = xs.length - 1 := by omega
      have hself : moved = a := by
        rw [← hend, hat] at hmoved
        exact (Option.some.inj hmoved).symm
      rw [hself, if_neg hb]

/-- **The element is gone, every other one is still there, and the index is right.** -/
theorem Indexes.swapOut {idx : α → Option Nat} {a : α} (h : Indexes idx xs)
    (ha : idx a = some pos) :
    Indexes (Lib.swapOut blank xs idx a pos).2 (Lib.swapOut blank xs idx a pos).1 ∧
      ∀ b, b ∈ (Lib.swapOut blank xs idx a pos).1 ↔ b ≠ a ∧ b ∈ xs := by
  have hat : xs[pos]? = some a := (h a pos).mp ha
  obtain ⟨hlt, -⟩ := List.getElem?_eq_some_iff.mp hat
  obtain ⟨moved, hmoved⟩ : ∃ b, xs[xs.length - 1]? = some b :=
    ⟨_, List.getElem?_eq_getElem (by omega)⟩
  have hidx := index_swapOut blank idx hat hmoved
  have hindex := h.swapRemove ha hmoved (getElem?_swapOut blank idx a hlt hmoved) hidx
  refine ⟨hindex, ?_⟩
  intro b
  rw [hindex.mem_iff, h.mem_iff]
  simp only [hidx]
  by_cases hb : b = a
  · simp [hb]
  · by_cases hbm : b = moved
    · subst hbm
      simp [hb, (h b _).mpr hmoved]
    · simp [hb, hbm]

end SwapOut

end Lib
