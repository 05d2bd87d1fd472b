/-
Compaction in place.

A pass over a stretch of an array takes some items out and moves the others to the front,
with a write index that never overtakes the read index.  What it takes out and what it
keeps are the two filters of what was there, each in order: an item is overwritten only
after it has been read.
-/
import Mathlib.Data.List.Range

namespace Lib

variable {α : Type*}

/-- The `n` items from index `a` on. -/
def stretch (cells : Nat → α) (a n : Nat) : List α := (List.range' a n).map cells

@[simp] theorem stretch_zero (cells : Nat → α) (a : Nat) : stretch cells a 0 = [] := rfl

theorem stretch_succ (cells : Nat → α) (a n : Nat) :
    stretch cells a (n + 1) = cells a :: stretch cells (a + 1) n := by
  rw [stretch, List.range'_succ, List.map_cons, stretch]

@[simp] theorem length_stretch (cells : Nat → α) (a n : Nat) : (stretch cells a n).length = n := by
  simp [stretch]

theorem stretch_append_one (cells : Nat → α) (a n : Nat) :
    stretch cells a (n + 1) = stretch cells a n ++ [cells (a + n)] := by
  rw [stretch, stretch, List.range'_1_concat, List.map_append, List.map_singleton]

theorem stretch_congr {cells cells' : Nat → α} {a n : Nat}
    (h : ∀ i, a ≤ i → i < a + n → cells i = cells' i) :
    stretch cells a n = stretch cells' a n := by
  refine List.map_congr_left fun i hi => ?_
  obtain ⟨hlow, hhigh⟩ := List.mem_range'_1.mp hi
  exact h i hlow hhigh

/-- A pass over so many items from index `n` on: what it takes out, the cells it leaves, and
the write index. -/
def compact (goes : α → Bool) : Nat → Nat → Nat → (Nat → α) → List α × (Nat → α) × Nat
  | 0, _, write, cells => ([], cells, write)
  | rounds + 1, n, write, cells =>
    if goes (cells n) then
      let (out, cells', write') := compact goes rounds (n + 1) write cells
      (cells n :: out, cells', write')
    else compact goes rounds (n + 1) (write + 1) (Function.update cells write (cells n))

/-- What a pass makes of the items it walks over. -/
structure Compacted (goes : α → Bool) (cells : Nat → α) (n rounds write : Nat)
    (result : List α × (Nat → α) × Nat) : Prop where
  out : result.1 = (stretch cells n rounds).filter goes
  kept : stretch result.2.1 write (result.2.2 - write) =
    (stretch cells n rounds).filter fun x => !goes x
  moved : result.2.2 = write + ((stretch cells n rounds).filter fun x => !goes x).length
  below : ∀ i, i < write → result.2.1 i = cells i

/-- **A pass takes out what goes and keeps the rest, both in order.** -/
theorem compact_spec (goes : α → Bool) (rounds : Nat) :
    ∀ (n write : Nat) (cells : Nat → α), write ≤ n →
      Compacted goes cells n rounds write (compact goes rounds n write cells) := by
  induction rounds with
  | zero =>
    intro n write cells _
    exact ⟨rfl, by simp [compact], by simp [compact], fun _ _ => rfl⟩
  | succ rounds ih =>
    intro n write cells hle
    rw [compact]
    by_cases hgoes : goes (cells n) = true
    · obtain ⟨hout, hkept, hmoved, hbelow⟩ := ih (n + 1) write cells (by omega)
      rw [if_pos hgoes]
      have hkeep : (stretch cells n (rounds + 1)).filter (fun x => !goes x) =
          (stretch cells (n + 1) rounds).filter fun x => !goes x := by
        rw [stretch_succ, List.filter_cons_of_neg (by simp [hgoes])]
      refine ⟨?_, by rw [hkeep]; exact hkept, by rw [hkeep]; exact hmoved, hbelow⟩
      rw [stretch_succ, List.filter_cons_of_pos hgoes, ← hout]
    · rw [if_neg hgoes]
      -- The cell that is written lies before all that are still to be read.
      have hahead : stretch (Function.update cells write (cells n)) (n + 1) rounds =
          stretch cells (n + 1) rounds :=
        stretch_congr fun i hlow _ => Function.update_of_ne (by omega) _ _
      have hkeep : (stretch cells n (rounds + 1)).filter (fun x => !goes x) =
          cells n :: (stretch cells (n + 1) rounds).filter fun x => !goes x := by
        rw [stretch_succ, List.filter_cons_of_pos (by simp [hgoes])]
      obtain ⟨hout, hkept, hmoved, hbelow⟩ :=
        ih (n + 1) (write + 1) (Function.update cells write (cells n)) (by omega)
      rw [hahead] at hout hkept hmoved
      refine ⟨?_, ?_, ?_, ?_⟩
      · rw [hout, stretch_succ, List.filter_cons_of_neg (by simpa using hgoes)]
      · rw [hkeep, ← hkept, hmoved,
          show write + 1 + ((stretch cells (n + 1) rounds).filter fun x => !goes x).length - write
            = ((stretch cells (n + 1) rounds).filter fun x => !goes x).length + 1 by omega,
          stretch_succ, hbelow write (by omega), Function.update_self, Nat.add_sub_cancel_left]
      · rw [hkeep, hmoved, List.length_cons]
        omega
      · intro i hi
        rw [hbelow i (by omega), Function.update_of_ne (by omega)]

end Lib
