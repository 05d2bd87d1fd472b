/-
A bounded queue in which a newer value may take the place of an older one.

Items leave in the order they came and are numbered one after the other.  An item may
have a key; a value put under a key that is waiting replaces the value there, and the
item keeps its place and its number.  The queue carries what follows from this: it is
never too long, its numbers have no gap, and no key waits twice.
-/
import Mathlib.Data.List.Nodup

namespace Lib

/-- An item that waits. -/
structure Item (κ α : Type*) where
  key : Option κ
  number : Nat
  value : α

variable {κ α : Type*} {cap : Nat}

/-- The keys that wait. -/
def waiting (items : List (Item κ α)) : List κ := items.filterMap Item.key

theorem waiting_concat (items : List (Item κ α)) (key : Option κ) (number : Nat) (value : α) :
    waiting (items ++ [⟨key, number, value⟩]) = waiting items ++ key.toList := by
  rw [waiting, List.filterMap_append]
  cases key <;> rfl

/-- The places that items with the keys take, put in one after the other: none if something
waits under the key, and one otherwise. -/
def newPlaces [DecidableEq κ] : List κ → List (Option κ) → Nat
  | _, [] => 0
  | held, key :: keys =>
    if ∃ k ∈ held, key = some k then newPlaces held keys
    else newPlaces (held ++ key.toList) keys + 1

theorem newPlaces_le_length [DecidableEq κ] (keys : List (Option κ)) :
    ∀ held : List κ, newPlaces held keys ≤ keys.length := by
  induction keys with
  | nil => exact fun _ => Nat.le_refl 0
  | cons key keys ih =>
    intro held
    rw [newPlaces, List.length_cons]
    split
    · exact Nat.le_succ_of_le (ih held)
    · exact Nat.succ_le_succ (ih _)

/-- At most `cap` items, oldest first; `next` is the number of the next one. -/
@[ext]
structure KeyedQueue (κ α : Type*) (cap : Nat) where
  items : List (Item κ α)
  next : Nat
  bounded : items.length ≤ cap
  numbered : ∀ i item, items[i]? = some item → item.number + items.length = next + i
  distinct : (waiting items).Nodup

/-- The value of the items with the key is replaced. -/
def Item.assign [DecidableEq κ] (key : Option κ) (value : α) (item : Item κ α) : Item κ α :=
  if item.key = key then { item with value := value } else item

section Assign

variable [DecidableEq κ] (key : Option κ) (value : α) (item : Item κ α)

@[simp] theorem Item.key_assign : (item.assign key value).key = item.key := by
  unfold Item.assign
  split <;> rfl

@[simp] theorem Item.number_assign : (item.assign key value).number = item.number := by
  unfold Item.assign
  split <;> rfl

@[simp] theorem waiting_map_assign (items : List (Item κ α)) :
    waiting (items.map (Item.assign key value)) = waiting items := by
  rw [waiting, List.filterMap_map]
  exact List.filterMap_congr fun item _ => item.key_assign key value

end Assign

namespace KeyedQueue

/-- Nothing waits. -/
def empty : KeyedQueue κ α cap := ⟨[], 0, Nat.zero_le _, by simp, List.nodup_nil⟩

/-- Something waits under the key. -/
def Holds (q : KeyedQueue κ α cap) (key : Option κ) : Prop := ∃ k ∈ waiting q.items, key = some k

instance [DecidableEq κ] (q : KeyedQueue κ α cap) (key : Option κ) : Decidable (q.Holds key) :=
  inferInstanceAs (Decidable (∃ k ∈ waiting q.items, key = some k))

/-- The value takes the place of the one under the key. -/
def overwrite [DecidableEq κ] (q : KeyedQueue κ α cap) (key : Option κ) (value : α) :
    KeyedQueue κ α cap where
  items := q.items.map (Item.assign key value)
  next := q.next
  bounded := by
    rw [List.length_map]
    exact q.bounded
  numbered i item hitem := by
    rw [List.getElem?_map] at hitem
    obtain ⟨old, hold, rfl⟩ := Option.map_eq_some_iff.mp hitem
    rw [List.length_map, Item.number_assign]
    exact q.numbered i old hold
  distinct := by
    rw [waiting_map_assign]
    exact q.distinct

/-- A new item at the end. -/
def append (q : KeyedQueue κ α cap) (key : Option κ) (value : α) (hroom : q.items.length < cap)
    (hnew : ¬ q.Holds key) : KeyedQueue κ α cap where
  items := q.items ++ [⟨key, q.next, value⟩]
  next := q.next + 1
  bounded := by
    rw [List.length_append]
    exact hroom
  numbered i item hitem := by
    rw [List.length_append, List.length_singleton]
    rcases Nat.lt_or_ge i q.items.length with hlt | hge
    · rw [List.getElem?_append_left hlt] at hitem
      have hold := q.numbered i item hitem
      omega
    · rw [List.getElem?_append_right hge, List.getElem?_singleton] at hitem
      split at hitem
      · obtain rfl := Option.some.inj hitem
        simp only
        omega
      · cases hitem
  distinct := by
    rw [waiting_concat]
    cases key with
    | none =>
      rw [Option.toList_none, List.append_nil]
      exact q.distinct
    | some k =>
      rw [Option.toList_some, ← List.concat_eq_append]
      exact q.distinct.concat fun hmem => hnew ⟨k, hmem, rfl⟩

/-- A value is put in: in the place of the one that waits under its key, or at the end if
there is room. -/
def put [DecidableEq κ] (q : KeyedQueue κ α cap) (key : Option κ) (value : α) :
    Bool × KeyedQueue κ α cap :=
  if hheld : q.Holds key then (true, q.overwrite key value)
  else if hroom : q.items.length < cap then (true, q.append key value hroom hheld)
  else (false, q)

/-- The queue without its oldest item. -/
def tail (q : KeyedQueue κ α cap) : KeyedQueue κ α cap where
  items := q.items.tail
  next := q.next
  bounded := by
    have hle := q.bounded
    rw [List.length_tail]
    omega
  numbered i item hitem := by
    rw [List.getElem?_tail] at hitem
    have hold := q.numbered (i + 1) item hitem
    obtain ⟨hlt, -⟩ := List.getElem?_eq_some_iff.mp hitem
    rw [List.length_tail]
    omega
  distinct := q.distinct.sublist ((List.tail_sublist q.items).filterMap Item.key)

/-- The oldest item is taken out. -/
def take (q : KeyedQueue κ α cap) : Option (Item κ α) × KeyedQueue κ α cap :=
  (q.items.head?, q.tail)

/-! ### What the operations do -/

variable {q q' : KeyedQueue κ α cap} {key : Option κ} {value : α} {item : Item κ α}

theorem place_unique (q : KeyedQueue κ α cap) {i j : Nat} {a b : Item κ α} {k : κ}
    (ha : q.items[i]? = some a) (hb : q.items[j]? = some b) (hak : a.key = some k)
    (hbk : b.key = some k) : i = j := by
  have hpairs := List.pairwise_filterMap.mp q.distinct
  rw [List.pairwise_iff_getElem] at hpairs
  obtain ⟨hi, rfl⟩ := List.getElem?_eq_some_iff.mp ha
  obtain ⟨hj, rfl⟩ := List.getElem?_eq_some_iff.mp hb
  rcases Nat.lt_trichotomy i j with hlt | heq | hgt
  · exact absurd rfl (hpairs i j hi hj hlt k hak k hbk)
  · exact heq
  · exact absurd rfl (hpairs j i hj hi hgt k hbk k hak)

theorem not_holds_none (q : KeyedQueue κ α cap) : ¬ q.Holds none := by
  rintro ⟨k, -, hk⟩
  cases hk

theorem holds_some_iff {k : κ} : q.Holds (some k) ↔ ∃ item ∈ q.items, item.key = some k := by
  constructor
  · rintro ⟨k', hmem, hk⟩
    obtain rfl := Option.some.inj hk
    exact List.mem_filterMap.mp hmem
  · rintro ⟨item, hmem, hkey⟩
    exact ⟨k, List.mem_filterMap.mpr ⟨item, hmem, hkey⟩, rfl⟩

/-- After a put, an item with a key is the value that was put or waited before under
another key. -/
theorem mem_put [DecidableEq κ] (h : q.put key value = (true, q')) (hitem : item ∈ q'.items) {k : κ}
    (hk : item.key = some k) :
    key = some k ∧ item.value = value ∨ key ≠ some k ∧ item ∈ q.items := by
  unfold put at h
  split at h
  · rw [← (Prod.mk.inj h).2] at hitem
    obtain ⟨old, hold, rfl⟩ := List.mem_map.mp hitem
    rw [Item.key_assign] at hk
    by_cases hkey : old.key = key
    · refine Or.inl ⟨hkey ▸ hk, ?_⟩
      rw [Item.assign, if_pos hkey]
    · refine Or.inr ⟨fun hc => hkey (hk.trans hc.symm), ?_⟩
      rwa [Item.assign, if_neg hkey]
  · rename_i hheld
    split at h
    · rw [← (Prod.mk.inj h).2] at hitem
      rcases List.mem_append.mp hitem with hold | hnew
      · refine Or.inr ⟨?_, hold⟩
        rintro rfl
        exact hheld (holds_some_iff.mpr ⟨item, hold, hk⟩)
      · obtain rfl := List.mem_singleton.mp hnew
        exact Or.inl ⟨hk, rfl⟩
    · cases (Prod.mk.inj h).1

end KeyedQueue

end Lib
