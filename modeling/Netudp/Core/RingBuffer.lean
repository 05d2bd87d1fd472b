/-
The fixed-capacity circular buffer (`src/core/ring_buffer.h`).

`N` cells, the oldest item at `head`, and `size` items from there on, wrapping.  The
capacity is a power of two in the code so that it can mask instead of divide; the
model divides.  `toList` is the content, oldest first, and the lemmas say the buffer
is a bounded queue: everything above this file reasons about the list.
-/
import Netudp.Lib.Table

namespace Netudp

open Lib

/-- `class FixedRingBuffer<T, N>`. -/
structure FixedRingBuffer (N : Nat) (α : Type) where
  data : Table N α
  head : Nat
  size : Nat
  size_le : size ≤ N

namespace FixedRingBuffer

variable {N : Nat} [NeZero N] {α : Type}

/-- `clear`, and the buffer as constructed. -/
def clear [Inhabited α] : FixedRingBuffer N α := ⟨.fill default, 0, 0, Nat.zero_le N⟩

/-- `push_back`. -/
def pushBack (r : FixedRingBuffer N α) (item : α) : Bool × FixedRingBuffer N α :=
  if h : r.size = N then (false, r)
  else
    (true,
      { r with
        data := r.data.set (r.head + r.size) item
        size := r.size + 1
        size_le := Nat.lt_of_le_of_ne r.size_le h })

/-- `pop_front`. -/
def popFront [Inhabited α] (r : FixedRingBuffer N α) : Option α × FixedRingBuffer N α :=
  if r.size = 0 then (none, r)
  else
    (some (r.data.get r.head),
      { data := r.data.set r.head default
        head := (r.head + 1) % N
        size := r.size - 1
        size_le := Nat.le_trans (Nat.sub_le _ _) r.size_le })

/-- `operator[]`. -/
def get (r : FixedRingBuffer N α) (index : Nat) : α := r.data.get (r.head + index)

/-- An assignment through `operator[]`. -/
def set (r : FixedRingBuffer N α) (index : Nat) (item : α) : FixedRingBuffer N α :=
  { r with data := r.data.set (r.head + index) item }

/-! ### The content -/

/-- The items, oldest first. -/
def toList (r : FixedRingBuffer N α) : List α :=
  (List.range r.size).map r.get

variable {r : FixedRingBuffer N α}

@[simp] theorem length_toList : r.toList.length = r.size := by
  simp [toList]

theorem length_toList_le (r : FixedRingBuffer N α) : r.toList.length ≤ N := by
  rw [length_toList]
  exact r.size_le

theorem toList_eq_nil_iff : r.toList = [] ↔ r.size = 0 := by
  rw [← List.length_eq_zero_iff, length_toList]

theorem toList_eq_stretch (r : FixedRingBuffer N α) :
    r.toList = r.data.stretch r.head r.size := rfl

theorem pushBack_of_lt (h : r.size < N) (item : α) :
    (r.pushBack item).1 = true ∧ (r.pushBack item).2.toList = r.toList ++ [item] := by
  have hne : r.size ≠ N := Nat.ne_of_lt h
  rw [pushBack, dif_neg hne]
  exact ⟨rfl, Table.stretch_set_end h item⟩

/-- A push into a full buffer changes nothing, so the first `N` items stay. -/
theorem toList_pushBack (r : FixedRingBuffer N α) (item : α) :
    (r.pushBack item).2.toList = (r.toList ++ [item]).take N := by
  have hle := r.size_le
  by_cases hfull : r.size = N
  · have hlen : r.toList.length = N := length_toList.trans hfull
    rw [pushBack, dif_pos hfull, List.take_left' hlen]
  · have hlen : (r.toList ++ [item]).length ≤ N := by
      rw [List.length_append, length_toList, List.length_singleton]
      omega
    rw [(pushBack_of_lt (by omega) item).2, List.take_of_length_le hlen]

theorem popFront_of_cons [Inhabited α] {x : α} {rest : List α} (h : r.toList = x :: rest) :
    r.popFront.1 = some x ∧ r.popFront.2.toList = rest := by
  have hsize : r.size = rest.length + 1 := by
    rw [← length_toList, h, List.length_cons]
  have hne : r.size ≠ 0 := by omega
  have hle := r.size_le
  rw [toList_eq_stretch, hsize, Table.stretch_succ] at h
  obtain ⟨hx, hrest⟩ := List.cons.inj h
  rw [popFront, if_neg hne, ← hx]
  refine ⟨rfl, ?_⟩
  -- The cell the pop has cleared comes round again only behind the others.
  have hcleared : r.data.set r.head default = r.data.set (r.head + N) default :=
    Table.set_congr _ _ (Nat.add_mod_right r.head N).symm
  show (r.data.set r.head default).stretch ((r.head + 1) % N) (r.size - 1) = rest
  rw [Table.stretch_mod, hcleared, hsize, Nat.add_sub_cancel,
    Table.stretch_set_of_outside (by omega) (by omega), hrest]

theorem getElem?_toList {i : Nat} (h : i < r.size) : r.toList[i]? = some (r.get i) := by
  rw [toList, List.getElem?_map, List.getElem?_range h, Option.map_some]

/-- An assignment replaces the item at the index. -/
theorem toList_set {i : Nat} (h : i < r.size) (item : α) :
    (r.set i item).toList = r.toList.set i item := by
  have hle := r.size_le
  refine List.ext_getElem? fun j => ?_
  rw [List.getElem?_set, length_toList]
  rcases Nat.lt_or_ge j r.size with hj | hj
  · have hnew : (r.set i item).toList[j]? = some ((r.set i item).get j) := getElem?_toList hj
    rw [hnew, getElem?_toList hj]
    by_cases hij : i = j
    · subst hij
      rw [if_pos rfl, if_pos h]
      exact congrArg some (Table.get_set_self _ _ _)
    · have hne : (r.head + j) % N ≠ (r.head + i) % N :=
        mod_ne_of_near (by omega) (by omega) (by omega)
      rw [if_neg hij]
      exact congrArg some (Table.get_set_of_mod_ne _ _ hne)
  · have hold : r.toList[j]? = none := List.getElem?_eq_none (by rw [length_toList]; exact hj)
    have hnew : (r.set i item).toList[j]? = none :=
      List.getElem?_eq_none (by rw [length_toList]; exact hj)
    rw [hnew, hold, if_neg (by omega)]

theorem popFront_of_nil [Inhabited α] (h : r.toList = []) : r.popFront = (none, r) := by
  rw [popFront, if_pos (toList_eq_nil_iff.mp h)]

end FixedRingBuffer

end Netudp
