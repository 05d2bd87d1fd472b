/-
The hash map is a finite partial map.

The specification is a `Finmap` from key bytes to values: `find` looks a key up,
`remove` erases it, and `insert` sets it unless the key is new and there are `N` already.
`Represents` ties a table to the map it stands for: no gaps (`Probed`), the same
bindings, and a size field that is the number of keys.

Every operation is decided by one probe.  In a table without gaps the probe for a key
passes cells taken by other keys and then meets the key, or a free cell if the key is
not there, or comes round if the table is full; `found_cell`, `free_cell` and `no_cell`
are the three ends, and the loops of the code are run up to them once (`insertFrom_pass`,
`locateFrom_pass`).

`rehash_after_delete` is a loop without a bound, and the model gives it fuel.  Its own
meaning is `RehashEnds`, which has no derivation for a loop that goes on for ever;
`rehash_ends` derives it, from any state the loop is in, with the measure `walkLeft`.
-/
import Netudp.Core.HashMap
import Netudp.Lib.Probing
import Netudp.Lib.Run
import Mathlib.Data.Finmap

namespace Netudp

open Lib

/-! ### The specification -/

/-- The operations of the map. -/
inductive MapOp (K V : Type) where
  | insert (key : K) (value : V)
  | find (key : K)
  | remove (key : K)
  | clear

/-- What an operation returns: whether `insert` found room, the value `find` points at,
whether `remove` found the key. -/
inductive MapResult (V : Type) where
  | inserted (ok : Bool)
  | found (value : Option V)
  | removed (ok : Bool)
  | cleared
deriving DecidableEq

/-- A finite partial map from key bytes to values. -/
abbrev Bindings (V : Type) := Finmap fun _ : Bytes => V

/-- The operations on a partial map of at most `N` keys. -/
def Bindings.apply {K V : Type} [RawBytes K] (N : Nat) (f : Bindings V) :
    MapOp K V → MapResult V × Bindings V
  | .insert key value =>
    if rawBytes key ∈ f ∨ f.keys.card < N then
      (.inserted true, f.insert (rawBytes key) value)
    else (.inserted false, f)
  | .find key => (.found (f.lookup (rawBytes key)), f)
  | .remove key => (.removed (decide (rawBytes key ∈ f)), f.erase (rawBytes key))
  | .clear => (.cleared, ∅)

/-- What is bound after an insert is what was inserted or was bound before. -/
theorem lookup_apply_insert {K V : Type} [RawBytes K] {N : Nat} {f : Bindings V} {key : K}
    {value v : V} {k : Bytes}
    (h : (Bindings.apply N f (.insert key value)).2.lookup k = some v) :
    k = rawBytes key ∧ v = value ∨ f.lookup k = some v := by
  simp only [Bindings.apply] at h
  split at h
  · by_cases hk : k = rawBytes key
    · rw [hk, Finmap.lookup_insert] at h
      exact Or.inl ⟨hk, (Option.some.inj h).symm⟩
    · rw [Finmap.lookup_insert_of_ne _ hk] at h
      exact Or.inr h
  · exact Or.inr h

/-- A run on the partial map, with each result and the number of keys after it. -/
def Bindings.record {K V : Type} [RawBytes K] (N : Nat)
    (s : Bindings V × List (MapResult V × Nat)) (op : MapOp K V) :
    Bindings V × List (MapResult V × Nat) :=
  let (result, f) := s.1.apply N op
  (f, s.2 ++ [(result, f.keys.card)])

namespace FixedHashMap

variable {N : Nat} [NeZero N] {K V : Type} [RawBytes K] {hash : Bytes → Nat}
  {m : FixedHashMap N K V} {f : Bindings V} {key : K} {value : V} {c : Nat}

/-- The operations on the hash map. -/
def apply (hash : Bytes → Nat) (m : FixedHashMap N K V) :
    MapOp K V → MapResult V × FixedHashMap N K V
  | .insert key value => ((m.insert hash key value).map .inserted id)
  | .find key => (.found (m.find hash key), m)
  | .remove key => ((m.remove hash key).map .removed id)
  | .clear => (.cleared, clear)

/-- A run on the hash map, with each result and `size()` after it. -/
def record (hash : Bytes → Nat) (s : FixedHashMap N K V × List (MapResult V × Nat))
    (op : MapOp K V) : FixedHashMap N K V × List (MapResult V × Nat) :=
  let (result, m) := s.1.apply hash op
  (m, s.2 ++ [(result, m.size)])

/-- The loop of `rehash_after_delete`, from cell `slot` on, comes to an end with the
last map. -/
inductive RehashEnds (hash : Bytes → Nat) :
    FixedHashMap N K V → Nat → FixedHashMap N K V → Prop where
  | stop {m : FixedHashMap N K V} {slot : Nat} (hfree : m.slots.get slot = none) :
      RehashEnds hash m slot m
  | round {m m' : FixedHashMap N K V} {slot : Nat} {key : K} {value : V}
      (htaken : m.slots.get slot = some (key, value))
      (hrest : RehashEnds hash
        (insert hash ⟨m.slots.set slot none, m.size - 1⟩ key value).2 (slot + 1) m') :
      RehashEnds hash m slot m'

/-! ### The probe loops -/

/-- The cell of `x` is taken by another key. -/
def Other (m : FixedHashMap N K V) (key : K) (x : Nat) : Prop :=
  ∃ e, m.slots.get x = some e ∧ rawBytes e.1 ≠ rawBytes key

theorem insertFrom_pass (value : V) (n : Nat) :
    ∀ (d slot : Nat), (∀ i < d, m.Other key (slot + i)) →
      m.insertFrom key value (d + n) slot = m.insertFrom key value n (slot + d) := by
  refine walk_pass ?_ n
  rintro n slot ⟨⟨k, v⟩, hget, hne⟩
  rw [insertFrom, hget]
  exact if_neg hne

theorem locateFrom_pass (n : Nat) :
    ∀ (d slot : Nat), (∀ i < d, m.Other key (slot + i)) →
      m.locateFrom key (d + n) slot = m.locateFrom key n (slot + d) := by
  refine walk_pass ?_ n
  rintro n slot ⟨⟨k, v⟩, hget, hne⟩
  rw [locateFrom, hget]
  exact if_neg hne

/-- The cells from the home of `key` up to cell `c` are taken by other keys. -/
def Passes (hash : Bytes → Nat) (m : FixedHashMap N K V) (key : K) (c : Nat) : Prop :=
  ∀ x, stepsTo N (hash (rawBytes key)) x < stepsTo N (hash (rawBytes key)) c → m.Other key x

/-- The cell the probe loop is at after the cells before `c`. -/
theorem Passes.reach (h : m.Passes hash key c) :
    ∃ n slot, slot % N = c % N ∧
      (∀ value, m.insert hash key value = m.insertFrom key value (n + 1) slot) ∧
      m.locate hash key = m.locateFrom key (n + 1) slot := by
  have hlt := stepsTo_lt (N := N) (hash (rawBytes key)) c
  have hpass : ∀ i < stepsTo N (hash (rawBytes key)) c,
      m.Other key (hash (rawBytes key) + i) := by
    intro i hi
    exact h _ (by rwa [stepsTo_add (Nat.lt_trans hi hlt)])
  obtain ⟨n, hn⟩ : ∃ n, N = stepsTo N (hash (rawBytes key)) c + (n + 1) :=
    ⟨N - stepsTo N (hash (rawBytes key)) c - 1, by omega⟩
  refine ⟨n, hash (rawBytes key) + stepsTo N (hash (rawBytes key)) c, add_stepsTo _ _, ?_, ?_⟩
  · intro value
    rw [← insertFrom_pass value (n + 1) _ _ hpass, ← hn, insert]
  · rw [← locateFrom_pass (n + 1) _ _ hpass, ← hn, locate]

theorem insert_free (h : m.Passes hash key c) (hfree : m.slots.get c = none) :
    m.insert hash key value = (true, ⟨m.slots.set c (some (key, value)), m.size + 1⟩) := by
  obtain ⟨n, slot, hslot, hinsert, -⟩ := h.reach
  rw [hinsert, insertFrom, Table.get_congr _ hslot, hfree, Table.set_congr _ _ hslot]

theorem insert_same (h : m.Passes hash key c) {k : K} {v : V}
    (hget : m.slots.get c = some (k, v)) (hkey : rawBytes k = rawBytes key) :
    m.insert hash key value = (true, { m with slots := m.slots.set c (some (k, value)) }) := by
  obtain ⟨n, slot, hslot, hinsert, -⟩ := h.reach
  rw [hinsert, insertFrom, Table.get_congr _ hslot, hget]
  simp only
  rw [if_pos hkey, Table.set_congr _ _ hslot]

theorem insert_full (h : ∀ x, m.Other key x) : m.insert hash key value = (false, m) := by
  have hall := insertFrom_pass value 0 N (hash (rawBytes key)) (fun i _ => h _)
  rw [Nat.add_zero] at hall
  rw [insert, hall, insertFrom]

theorem locate_free (h : m.Passes hash key c) (hfree : m.slots.get c = none) :
    m.locate hash key = none := by
  obtain ⟨n, slot, hslot, -, hlocate⟩ := h.reach
  rw [hlocate, locateFrom, Table.get_congr _ hslot, hfree]

theorem locate_same (h : m.Passes hash key c) {k : K} {v : V}
    (hget : m.slots.get c = some (k, v)) (hkey : rawBytes k = rawBytes key) :
    ∃ slot, slot % N = c % N ∧ m.locate hash key = some (slot, v) := by
  obtain ⟨n, slot, hslot, -, hlocate⟩ := h.reach
  refine ⟨slot, hslot, ?_⟩
  rw [hlocate, locateFrom, Table.get_congr _ hslot, hget]
  simp only
  rw [if_pos hkey]

theorem locate_full (h : ∀ x, m.Other key x) : m.locate hash key = none := by
  have hall := locateFrom_pass 0 N (hash (rawBytes key)) (fun i _ => h _)
  rw [Nat.add_zero] at hall
  rw [locate, hall, locateFrom]

/-! ### What the table stands for -/

/-- The cell an entry is looked for first. -/
abbrev homeOf (hash : Bytes → Nat) (e : K × V) : Nat := hash (rawBytes e.1)

/-- The bytes an entry is known by. -/
abbrev bytesOf (e : K × V) : Bytes := rawBytes e.1

/-- A set of entries and a partial map bind the same keys to the same values. -/
def Binds (entries : Set (K × V)) (f : Bindings V) : Prop :=
  ∀ k v, f.lookup k = some v ↔ ∃ key, (key, v) ∈ entries ∧ rawBytes key = k

/-- The table stands for the partial map. -/
structure Represents (hash : Bytes → Nat) (m : FixedHashMap N K V) (f : Bindings V) : Prop where
  probed : Probed (homeOf hash) bytesOf m.slots
  binds : Binds m.slots.entries f
  size : m.size = f.keys.card

theorem Binds.mem_iff {entries : Set (K × V)} (h : Binds entries f) (k : Bytes) :
    k ∈ f ↔ ∃ e ∈ entries, bytesOf e = k := by
  rw [Finmap.mem_iff]
  constructor
  · rintro ⟨v, hv⟩
    obtain ⟨key, hmem, hkey⟩ := (h k v).mp hv
    exact ⟨(key, v), hmem, hkey⟩
  · rintro ⟨⟨key, v⟩, hmem, hkey⟩
    exact ⟨v, (h k v).mpr ⟨key, hmem, hkey⟩⟩

theorem Binds.bind {entries : Set (K × V)} (h : Binds entries f) {k : K} (v : V)
    (hkey : rawBytes k = rawBytes key) (hnew : ∀ e ∈ entries, bytesOf e ≠ rawBytes key) :
    Binds (Insert.insert (k, v) entries) (f.insert (rawBytes key) v) := by
  intro k' v'
  by_cases hsame : k' = rawBytes key
  · subst hsame
    rw [Finmap.lookup_insert]
    constructor
    · intro hv
      exact ⟨k, Or.inl (by rw [Option.some.inj hv]), hkey⟩
    · rintro ⟨key', heq | hmem, hbytes⟩
      · rw [(Prod.mk.inj heq).2]
      · exact absurd hbytes (hnew _ hmem)
  · rw [Finmap.lookup_insert_of_ne _ hsame, h k' v']
    constructor
    · rintro ⟨key', hmem, hbytes⟩
      exact ⟨key', Or.inr hmem, hbytes⟩
    · rintro ⟨key', heq | hmem, hbytes⟩
      · rw [(Prod.mk.inj heq).1, hkey] at hbytes
        exact absurd hbytes.symm hsame
      · exact ⟨key', hmem, hbytes⟩

theorem Binds.erase {entries : Set (K × V)} (h : Binds entries f) (k : Bytes) :
    Binds { e ∈ entries | bytesOf e ≠ k } (f.erase k) := by
  intro k' v'
  by_cases hsame : k' = k
  · subst hsame
    rw [Finmap.lookup_erase]
    constructor
    · intro hv
      exact absurd hv.symm (Option.some_ne_none v')
    · rintro ⟨key', ⟨-, hne⟩, hbytes⟩
      exact absurd hbytes hne
  · rw [Finmap.lookup_erase_ne hsame, h k' v']
    constructor
    · rintro ⟨key', hmem, hbytes⟩
      exact ⟨key', ⟨hmem, by rwa [bytesOf, hbytes]⟩, hbytes⟩
    · rintro ⟨key', ⟨hmem, -⟩, hbytes⟩
      exact ⟨key', hmem, hbytes⟩

theorem represents_clear : Represents hash (clear : FixedHashMap N K V) (∅ : Bindings V) where
  probed := probed_fill
  binds := by
    intro k v
    rw [Finmap.lookup_empty]
    constructor
    · intro hv
      exact absurd hv.symm (Option.some_ne_none v)
    · rintro ⟨key, ⟨c, hc⟩, -⟩
      exact absurd hc.symm (Option.some_ne_none (key, v))
  size := by rw [Finmap.keys_empty, Finset.card_empty, clear]

/-! ### The three ends of a probe -/

theorem Represents.taken_card (h : Represents hash m f) : m.slots.taken.card = f.keys.card :=
  h.probed.taken_card f.keys (fun k => by rw [Finmap.mem_keys, h.binds.mem_iff])

theorem Represents.other_of_absent (h : Represents hash m f) (habsent : rawBytes key ∉ f)
    {x : Nat} (hx : m.slots.get x ≠ none) : m.Other key x := by
  obtain ⟨e, he⟩ := Option.ne_none_iff_exists'.mp hx
  refine ⟨e, he, ?_⟩
  intro hbytes
  exact habsent ((h.binds.mem_iff _).mpr ⟨e, ⟨x, he⟩, hbytes⟩)

theorem Represents.found_cell (h : Represents hash m f)
    (hv : f.lookup (rawBytes key) = some value) :
    ∃ c k, m.slots.get c = some (k, value) ∧ rawBytes k = rawBytes key ∧
      m.Passes hash key c := by
  obtain ⟨k, ⟨c, hc⟩, hbytes⟩ := (h.binds _ _).mp hv
  refine ⟨c, k, hc, hbytes, ?_⟩
  intro x hx
  have hhome : homeOf hash (k, value) = hash (rawBytes key) := by rw [homeOf, hbytes]
  obtain ⟨e, he⟩ := Option.ne_none_iff_exists'.mp
    (h.probed.way c (k, value) hc x (by rwa [hhome]))
  refine ⟨e, he, ?_⟩
  intro hsame
  have hmod := h.probed.unique x c e (k, value) he hc (by rw [bytesOf, hsame, bytesOf, hbytes])
  rw [stepsTo_congr rfl hmod] at hx
  exact Nat.lt_irrefl _ hx

theorem Represents.free_cell (h : Represents hash m f) (habsent : rawBytes key ∉ f)
    (hroom : f.keys.card < N) :
    ∃ c, m.slots.get c = none ∧ m.Passes hash key c := by
  have hfree : ∃ c, m.slots.get c = none := by
    by_contra hall
    have hcard := Table.taken_card_eq_iff.mpr (fun c hc => hall ⟨c, hc⟩)
    rw [h.taken_card] at hcard
    exact Nat.ne_of_lt hroom hcard
  obtain ⟨c, hc, hbefore⟩ := m.slots.exists_first_free (hash (rawBytes key)) hfree
  exact ⟨c, hc, fun x hx => h.other_of_absent habsent (hbefore x hx)⟩

theorem Represents.no_cell (h : Represents hash m f) (habsent : rawBytes key ∉ f)
    (hroom : ¬ f.keys.card < N) : ∀ x, m.Other key x := by
  have hle := m.slots.taken_card_le
  rw [h.taken_card] at hle
  have hcard : m.slots.taken.card = N := by
    rw [h.taken_card]
    omega
  intro x
  exact h.other_of_absent habsent (Table.taken_card_eq_iff.mp hcard x)

/-! ### `find` and `insert` -/

theorem Represents.locate_isSome (h : Represents hash m f)
    (hv : f.lookup (rawBytes key) = some value) :
    ∃ slot k, m.locate hash key = some (slot, value) ∧ m.slots.get slot = some (k, value) ∧
      rawBytes k = rawBytes key := by
  obtain ⟨c, k, hc, hbytes, hpass⟩ := h.found_cell hv
  obtain ⟨slot, hslot, hlocate⟩ := locate_same hpass hc hbytes
  exact ⟨slot, k, hlocate, by rw [Table.get_congr _ hslot, hc], hbytes⟩

theorem Represents.locate_eq_none (h : Represents hash m f) (habsent : rawBytes key ∉ f) :
    m.locate hash key = none := by
  by_cases hroom : f.keys.card < N
  · obtain ⟨c, hc, hpass⟩ := h.free_cell habsent hroom
    exact locate_free hpass hc
  · exact locate_full (h.no_cell habsent hroom)

/-- `find` looks the key up. -/
theorem Represents.find_eq (h : Represents hash m f) (key : K) :
    m.find hash key = f.lookup (rawBytes key) := by
  rw [find]
  cases hv : f.lookup (rawBytes key) with
  | none => rw [h.locate_eq_none (Finmap.lookup_eq_none.mp hv), Option.map_none]
  | some value =>
    obtain ⟨slot, k, hlocate, -, -⟩ := h.locate_isSome hv
    rw [hlocate, Option.map_some]

@[simp] theorem find_clear (key : K) : (clear : FixedHashMap N K V).find hash key = none := by
  rw [represents_clear.find_eq, Finmap.lookup_empty]

theorem card_keys_insert_of_mem (k : Bytes) (hmem : k ∈ f) :
    (f.insert k value).keys.card = f.keys.card := by
  congr 1
  ext k'
  rw [Finmap.mem_keys, Finmap.mem_insert, Finmap.mem_keys]
  constructor
  · rintro (rfl | hk')
    · exact hmem
    · exact hk'
  · exact Or.inr

theorem card_keys_insert_of_not_mem (k : Bytes) (hmem : k ∉ f) :
    (f.insert k value).keys.card = f.keys.card + 1 := by
  rw [← Finset.card_insert_of_notMem (show k ∉ f.keys by rwa [Finmap.mem_keys])]
  congr 1
  ext k'
  rw [Finmap.mem_keys, Finmap.mem_insert, Finset.mem_insert, Finmap.mem_keys]

/-- `insert` of a key that is there replaces its value. -/
theorem Represents.insert_mem (h : Represents hash m f) (value : V) (hmem : rawBytes key ∈ f) :
    (m.insert hash key value).1 = true ∧
      Represents hash (m.insert hash key value).2 (f.insert (rawBytes key) value) := by
  obtain ⟨v, hv⟩ := Finmap.mem_iff.mp hmem
  obtain ⟨c, k, hc, hbytes, hpass⟩ := h.found_cell hv
  rw [insert_same hpass hc hbytes]
  refine ⟨rfl, ⟨h.probed.replace hc rfl rfl, ?_, ?_⟩⟩
  · -- The entry is taken out of its cell and put back with the new value.
    have hentries : (m.slots.set c (some (k, value))).entries
        = Insert.insert (k, value) { e ∈ m.slots.entries | bytesOf e ≠ rawBytes key } := by
      rw [← Table.set_set m.slots c none, Table.entries_put (Table.get_set_self _ _ _),
        h.probed.entries_takeOut hc, bytesOf, hbytes]
    have hinsert := (h.binds.erase (rawBytes key)).bind value hbytes
      (fun e he => he.2)
    intro k' v'
    rw [hentries, ← hinsert k' v']
    by_cases hsame : k' = rawBytes key
    · rw [hsame, Finmap.lookup_insert, Finmap.lookup_insert]
    · rw [Finmap.lookup_insert_of_ne _ hsame, Finmap.lookup_insert_of_ne _ hsame,
        Finmap.lookup_erase_ne hsame]
  · rw [card_keys_insert_of_mem _ hmem, ← h.size]

/-- `insert` of a new key finds room unless there are `N` keys. -/
theorem Represents.insert_new (h : Represents hash m f) (value : V) (habsent : rawBytes key ∉ f)
    (hroom : f.keys.card < N) :
    (m.insert hash key value).1 = true ∧
      Represents hash (m.insert hash key value).2 (f.insert (rawBytes key) value) := by
  obtain ⟨c, hc, hpass⟩ := h.free_cell habsent hroom
  have hnew : ∀ e ∈ m.slots.entries, bytesOf e ≠ rawBytes key := by
    intro e he hbytes
    exact habsent ((h.binds.mem_iff _).mpr ⟨e, he, hbytes⟩)
  rw [insert_free hpass hc]
  refine ⟨rfl, ⟨?_, ?_, ?_⟩⟩
  · refine h.probed.put ?_ ?_
    · intro x hx
      obtain ⟨e, he, -⟩ := hpass x hx
      rw [he]
      exact Option.some_ne_none e
    · intro c' e he
      exact hnew e ⟨c', he⟩
  · rw [Table.entries_put hc]
    exact h.binds.bind value rfl hnew
  · rw [card_keys_insert_of_not_mem _ habsent, ← h.size]

theorem Represents.insert_no_room (h : Represents hash m f) (habsent : rawBytes key ∉ f)
    (hroom : ¬ f.keys.card < N) : m.insert hash key value = (false, m) :=
  insert_full (h.no_cell habsent hroom)

/-! ### A map filled key by key -/

/-- The map holds the first `n` of a sequence of keys. -/
def FilledWith (hash : Bytes → Nat) (keys : Nat → K) (n : Nat) (m : FixedHashMap N K V) : Prop :=
  ∃ f : Bindings V, m.Represents hash f ∧
    f.keys = (Finset.range n).image fun i => rawBytes (keys i)

section Filling

variable {keys : Nat → K} {n i B : Nat}

theorem filledWith_clear (hash : Bytes → Nat) (keys : Nat → K) :
    FilledWith hash keys 0 (clear : FixedHashMap N K V) := ⟨∅, represents_clear, rfl⟩

variable (hinj : ∀ i < B, ∀ j < B, rawBytes (keys i) = rawBytes (keys j) → i = j)

include hinj

theorem rawBytes_notMem_of_le (hn : n ≤ i) (hi : i < B) (hkeys : f.keys =
    (Finset.range n).image fun i => rawBytes (keys i)) : rawBytes (keys i) ∉ f := by
  rw [← Finmap.mem_keys, hkeys]
  intro hmem
  obtain ⟨j, hj, heq⟩ := Finset.mem_image.mp hmem
  have hlt := Finset.mem_range.mp hj
  have hsame := hinj j (by omega) i hi heq
  omega

theorem card_keys_filled (hn : n ≤ B) :
    ((Finset.range n).image fun i => rawBytes (keys i)).card = n := by
  rw [Finset.card_image_of_injOn, Finset.card_range]
  intro i hi j hj heq
  have hi' := Finset.mem_range.mp hi
  have hj' := Finset.mem_range.mp hj
  exact hinj i (by omega) j (by omega) heq

theorem FilledWith.find_eq_none (h : FilledWith hash keys n m) (hn : n ≤ i) (hi : i < B) :
    m.find hash (keys i) = none := by
  obtain ⟨f, hf, hkeys⟩ := h
  rw [hf.find_eq]
  exact Finmap.lookup_eq_none.mpr (rawBytes_notMem_of_le hinj hn hi hkeys)

theorem FilledWith.insert (h : FilledWith hash keys n m) (hn : n < N) (hB : n < B) (value : V) :
    FilledWith hash keys (n + 1) (m.insert hash (keys n) value).2 := by
  obtain ⟨f, hf, hkeys⟩ := h
  have hroom : f.keys.card < N := by
    rw [hkeys, card_keys_filled hinj (Nat.le_of_lt hB)]
    exact hn
  have hnew := rawBytes_notMem_of_le hinj (Nat.le_refl n) hB hkeys
  refine ⟨_, (hf.insert_new value hnew hroom).2, ?_⟩
  ext bytes
  rw [Finmap.mem_keys, Finmap.mem_insert, ← Finmap.mem_keys, hkeys, Finset.range_add_one,
    Finset.image_insert, Finset.mem_insert]

/-- No further one is. -/
theorem FilledWith.insert_full (h : FilledWith hash keys N m) (hn : N ≤ i) (hi : i < B)
    (value : V) : m.insert hash (keys i) value = (false, m) := by
  obtain ⟨f, hf, hkeys⟩ := h
  have hfull : ¬ f.keys.card < N := by
    rw [hkeys, card_keys_filled hinj (by omega)]
    exact Nat.lt_irrefl _
  exact hf.insert_no_room (rawBytes_notMem_of_le hinj hn hi hkeys) hfull

end Filling

/-! ### `remove` -/

/-- The state inside `rehash_after_delete`: the hole is at `H` and the loop at `p`. -/
structure Repairs (hash : Bytes → Nat) (m : FixedHashMap N K V) (f : Bindings V)
    (H p : Nat) : Prop where
  hole : HoleAt (homeOf hash) bytesOf m.slots H p
  binds : Binds m.slots.entries f
  size : m.size = f.keys.card

theorem Repairs.round {H p : Nat} (h : Repairs hash m f H p)
    (hp : m.slots.get p = some (key, value)) :
    ∃ H', Repairs hash
        (insert hash ⟨m.slots.set p none, m.size - 1⟩ key value).2 f H' (p + 1) ∧
      walkLeft (homeOf hash)
          (insert hash ⟨m.slots.set p none, m.size - 1⟩ key value).2.slots H' (p + 1)
        < walkLeft (homeOf hash) m.slots H p := by
  have hsize : m.size - 1 + 1 = m.size := by
    have hmem : rawBytes key ∈ f.keys := by
      rw [Finmap.mem_keys, h.binds.mem_iff]
      exact ⟨(key, value), ⟨p, hp⟩, rfl⟩
    have hpos := Finset.card_pos.mpr ⟨_, hmem⟩
    rw [h.size]
    omega
  have hHp : H % N ≠ p % N := by
    intro heq
    have hfree := h.hole.free
    rw [Table.get_congr _ heq, hp] at hfree
    exact Option.some_ne_none _ hfree
  by_cases hpass : stepsTo N (homeOf hash (key, value)) H < stepsTo N (homeOf hash (key, value)) p
  · -- The way of the entry crosses the hole, so it moves there.
    have hinsert : insert hash ⟨m.slots.set p none, m.size - 1⟩ key value
        = (true, ⟨(m.slots.set p none).set H (some (key, value)), m.size⟩) := by
      have hbefore : (⟨m.slots.set p none, m.size - 1⟩ : FixedHashMap N K V).Passes hash key H :=
        fun x hx => h.hole.before hp (Nat.lt_trans hx hpass) (Nat.ne_of_lt hx)
      have hfree : (m.slots.set p none).get H = none := by
        rw [Table.get_set_of_mod_ne _ _ hHp, h.hole.free]
      rw [insert_free hbefore hfree, hsize]
    refine ⟨p, ?_, ?_⟩ <;> rw [hinsert]
    · refine ⟨h.hole.move hp hpass, ?_, h.size⟩
      rw [Table.entries_move h.hole.free hp]
      exact h.binds
    · exact walkLeft_move hp h.hole.free hpass
  · -- The way of the entry does not, so its first free cell is the one it had.
    have hinsert : insert hash ⟨m.slots.set p none, m.size - 1⟩ key value = (true, m) := by
      have hbefore : (⟨m.slots.set p none, m.size - 1⟩ : FixedHashMap N K V).Passes hash key p :=
        fun x hx => h.hole.before hp hx
          (Nat.ne_of_lt (Nat.lt_of_lt_of_le hx (Nat.not_lt.mp hpass)))
      rw [insert_free hbefore (Table.get_set_self _ _ _), hsize, Table.set_set, ← hp,
        Table.set_get_self]
    refine ⟨H, ?_, ?_⟩ <;> rw [hinsert]
    · exact ⟨h.hole.stay hp hpass, h.binds, h.size⟩
    · exact walkLeft_stay hHp

/-- The loop ends, without gaps and with the bindings it had. -/
theorem rehash_ends (fuel : Nat) :
    ∀ (m : FixedHashMap N K V) (H p : Nat), Repairs hash m f H p →
      walkLeft (homeOf hash) m.slots H p < fuel →
      RehashEnds hash m p (rehashFrom hash fuel m p) ∧
        Represents hash (rehashFrom hash fuel m p) f := by
  induction fuel with
  | zero =>
    intro m H p _ hleft
    exact absurd hleft (Nat.not_lt_zero _)
  | succ fuel ih =>
    intro m H p h hleft
    rw [rehashFrom]
    cases hp : m.slots.get p with
    | none => exact ⟨.stop hp, h.hole.close hp, h.binds, h.size⟩
    | some e =>
      obtain ⟨key, value⟩ := e
      obtain ⟨H', hrepairs, hless⟩ := h.round hp
      obtain ⟨hends, hrep⟩ := ih _ H' (p + 1) hrepairs (by omega)
      exact ⟨.round hp hends, hrep⟩

/-- `remove` of a key that is there erases it, and its loop ends. -/
theorem Represents.remove_mem (h : Represents hash m f) (hmem : rawBytes key ∈ f) :
    (m.remove hash key).1 = true ∧
      Represents hash (m.remove hash key).2 (f.erase (rawBytes key)) ∧
      ∀ slot v, m.locate hash key = some (slot, v) →
        RehashEnds hash ⟨m.slots.set slot none, m.size - 1⟩ (slot + 1) (m.remove hash key).2 := by
  obtain ⟨v, hv⟩ := Finmap.mem_iff.mp hmem
  obtain ⟨slot, k, hlocate, hget, hbytes⟩ := h.locate_isSome hv
  have hstart : Repairs hash (⟨m.slots.set slot none, m.size - 1⟩ : FixedHashMap N K V)
      (f.erase (rawBytes key)) slot (slot + 1) := by
    refine ⟨h.probed.takeOut slot, ?_, ?_⟩
    · rw [h.probed.entries_takeOut hget, bytesOf, hbytes]
      exact h.binds.erase _
    · rw [Finmap.keys_erase, Finset.card_erase_of_mem (by rwa [Finmap.mem_keys]), ← h.size]
  have hfuel := walkLeft_lt (homeOf hash) (m.slots.set slot none) slot (slot + 1)
  obtain ⟨hends, hrep⟩ := rehash_ends (N * N * N + N) _ slot (slot + 1) hstart
    (Nat.lt_of_lt_of_le hfuel (Nat.le_add_right _ _))
  have hremove : m.remove hash key
      = (true, rehashFrom hash (N * N * N + N) ⟨m.slots.set slot none, m.size - 1⟩ (slot + 1)) := by
    rw [remove, hlocate]
  rw [hremove]
  refine ⟨rfl, hrep, ?_⟩
  intro slot' v' hlocate'
  rw [hlocate] at hlocate'
  obtain ⟨rfl, rfl⟩ := Prod.mk.inj (Option.some.inj hlocate')
  exact hends

theorem Represents.remove_absent (h : Represents hash m f) (habsent : rawBytes key ∉ f) :
    m.remove hash key = (false, m) := by
  rw [remove, h.locate_eq_none habsent]

/-! ### Runs -/

theorem Represents.apply (h : Represents hash m f) (op : MapOp K V) :
    (m.apply hash op).1 = (f.apply N op).1 ∧
      Represents hash (m.apply hash op).2 (f.apply N op).2 := by
  cases op with
  | insert key value =>
    simp only [FixedHashMap.apply, Bindings.apply]
    by_cases hmem : rawBytes key ∈ f
    · obtain ⟨hok, hrep⟩ := h.insert_mem value hmem
      rw [if_pos (Or.inl hmem)]
      exact ⟨by rw [Prod.map_fst, hok], hrep⟩
    · by_cases hroom : f.keys.card < N
      · obtain ⟨hok, hrep⟩ := h.insert_new value hmem hroom
        rw [if_pos (Or.inr hroom)]
        exact ⟨by rw [Prod.map_fst, hok], hrep⟩
      · rw [if_neg (by rintro (hin | hlt) <;> contradiction), h.insert_no_room hmem hroom]
        exact ⟨rfl, h⟩
  | find key => exact ⟨by rw [FixedHashMap.apply, h.find_eq]; rfl, h⟩
  | remove key =>
    simp only [FixedHashMap.apply, Bindings.apply]
    by_cases hmem : rawBytes key ∈ f
    · obtain ⟨hok, hrep, -⟩ := h.remove_mem hmem
      rw [Prod.map_fst, hok, decide_eq_true hmem]
      exact ⟨rfl, hrep⟩
    · rw [h.remove_absent hmem, decide_eq_false hmem]
      refine ⟨rfl, ?_⟩
      have hsame : f.erase (rawBytes key) = f := by
        refine Finmap.ext_lookup fun k => ?_
        by_cases hk : k = rawBytes key
        · rw [hk, Finmap.lookup_erase, Finmap.lookup_eq_none.mpr hmem]
        · rw [Finmap.lookup_erase_ne hk]
      rw [hsame]
      exact h
  | clear => exact ⟨rfl, represents_clear⟩

/-- Removing keys takes out what they are bound to, which is all `P`, and nothing else. -/
theorem Represents.removeAll {P : V → Prop} (keys : List K) :
    ∀ {m : FixedHashMap N K V} {f : Bindings V}, Represents hash m f →
      (∀ key ∈ keys, ∀ v, f.lookup (rawBytes key) = some v → P v) →
      ∃ f', Represents hash (keys.foldl (fun m key => (m.remove hash key).2) m) f' ∧
        ∀ k, f'.lookup k = f.lookup k ∨
          (f'.lookup k = none ∧ ∃ v, f.lookup k = some v ∧ P v) := by
  induction keys with
  | nil => exact fun hf _ => ⟨_, hf, fun k => Or.inl rfl⟩
  | cons key keys ih =>
    intro m f hf hP
    have herased : Represents hash (m.remove hash key).2 (f.erase (rawBytes key)) :=
      (hf.apply (.remove key)).2
    have hrest : ∀ k v, (f.erase (rawBytes key)).lookup k = some v → f.lookup k = some v := by
      intro k v hlookup
      by_cases hk : k = rawBytes key
      · rw [hk, Finmap.lookup_erase] at hlookup
        exact absurd hlookup.symm (Option.some_ne_none v)
      · rwa [Finmap.lookup_erase_ne hk] at hlookup
    obtain ⟨f', hf', hlookups⟩ := ih herased fun k hk v hlookup =>
      hP k (List.mem_cons_of_mem _ hk) v (hrest _ v hlookup)
    refine ⟨f', hf', ?_⟩
    intro k
    by_cases hk : k = rawBytes key
    · -- What this key was bound to does not come back.
      have hgone : f'.lookup k = none := by
        have herase : (f.erase (rawBytes key)).lookup k = none := by rw [hk, Finmap.lookup_erase]
        rcases hlookups k with heq | ⟨hnone, -⟩
        · rw [heq, herase]
        · exact hnone
      cases hlookup : f.lookup k with
      | none => exact Or.inl hgone
      | some v => exact Or.inr ⟨hgone, v, rfl, hP key List.mem_cons_self v (hk ▸ hlookup)⟩
    · have hother := hlookups k
      rwa [Finmap.lookup_erase_ne hk] at hother

theorem run_represents (hash : Bytes → Nat) (ops : List (MapOp K V)) :
    Represents hash (run (record hash) ((clear : FixedHashMap N K V), []) ops).1
        (run (Bindings.record N) ((∅ : Bindings V), []) ops).1 ∧
      (run (record hash) ((clear : FixedHashMap N K V), []) ops).2
        = (run (Bindings.record N) ((∅ : Bindings V), []) ops).2 := by
  refine run_simulates
    (fun (s : FixedHashMap N K V × List (MapResult V × Nat))
      (t : Bindings V × List (MapResult V × Nat)) => Represents hash s.1 t.1 ∧ s.2 = t.2)
    ?_ ops ⟨represents_clear, rfl⟩
  rintro s t op ⟨hrep, hanswers⟩
  obtain ⟨hresult, hnext⟩ := hrep.apply op
  refine ⟨hnext, ?_⟩
  simp only [record, Bindings.record]
  rw [hanswers, hresult, hnext.size]

end FixedHashMap

open FixedHashMap in
/-- **Every run of the map returns what the partial map returns**, results and sizes, and
the loop of every removal ends. -/
theorem hash_map_refines (k : Nat) {K V : Type} [RawBytes K] (hash : Bytes → Nat)
    (ops : List (MapOp K V)) :
    (run (record hash) ((clear : FixedHashMap (2 ^ k) K V), []) ops).2
        = (run (Bindings.record (2 ^ k)) ((∅ : Bindings V), []) ops).2 ∧
      ∀ key slot value,
        let m := (run (record hash) ((clear : FixedHashMap (2 ^ k) K V), []) ops).1
        m.locate hash key = some (slot, value) →
          RehashEnds hash ⟨m.slots.set slot none, m.size - 1⟩ (slot + 1) (m.remove hash key).2 := by
  obtain ⟨hrep, hanswers⟩ := run_represents (N := 2 ^ k) hash ops
  refine ⟨hanswers, ?_⟩
  intro key slot value m hlocate
  have hmem : rawBytes key ∈ (run (Bindings.record (2 ^ k)) ((∅ : Bindings V), []) ops).1 := by
    by_contra habsent
    rw [hrep.locate_eq_none habsent] at hlocate
    exact Option.some_ne_none _ hlocate.symm
  exact (hrep.remove_mem hmem).2.2 slot value hlocate

end Netudp
