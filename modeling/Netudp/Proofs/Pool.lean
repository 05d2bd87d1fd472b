/-
Who has which element.

The free list is threaded through the elements, and the elements belong to others as long
as they are not on it.  What the invariant says of the memory is about the free elements
only: their first bytes lead from one to the next, and all the others are zero.  Nothing an
owner writes can touch that, and what `release` finds in an element it clears.
-/
import Mathlib.Data.List.Nodup
import Mathlib.Data.List.Perm.Basic
import Netudp.Core.Pool
import Netudp.Lib.FreeList
import Netudp.Lib.Run

namespace Netudp

open Lib

namespace Pool

variable {T : ElementType} {n base : Nat}

/-! ### The elements -/

/-- The elements of a block of `n`. -/
def elements (T : ElementType) (base n : Nat) : List Nat := (List.range n).map (element T base)

theorem size_pos (T : ElementType) : 0 < T.size := Nat.lt_of_lt_of_le T.pos T.fits

theorem element_apart (T : ElementType) (base : Nat) {i j : Nat} (h : i < j) :
    element T base i + T.size ≤ element T base j := by
  have := Nat.mul_le_mul_right T.size (Nat.succ_le_of_lt h)
  rw [Nat.succ_mul] at this
  unfold element
  omega

theorem apart {a b : Nat} (ha : a ∈ elements T base n) (hb : b ∈ elements T base n) (h : a ≠ b) :
    a + T.size ≤ b ∨ b + T.size ≤ a := by
  obtain ⟨i, -, rfl⟩ := List.mem_map.mp ha
  obtain ⟨j, -, rfl⟩ := List.mem_map.mp hb
  rcases Nat.lt_trichotomy i j with hij | rfl | hij
  · exact Or.inl (element_apart T base hij)
  · exact absurd rfl h
  · exact Or.inr (element_apart T base hij)

theorem nodup_elements : (elements T base n).Nodup := by
  refine List.nodup_range.map_on ?_
  intro i _ j _ heq
  have hpos := size_pos T
  rcases Nat.lt_trichotomy i j with hij | hij | hij
  · have := element_apart T base hij
    omega
  · exact hij
  · have := element_apart T base hij
    omega

theorem element_range (block : Allocation T n) {a : Nat} (ha : a ∈ elements T block.base n) :
    0 < a ∧ a < 256 ^ T.ptrSize := by
  obtain ⟨i, hi, rfl⟩ := List.mem_map.mp ha
  have hle := Nat.mul_le_mul_right T.size (Nat.succ_le_of_lt (List.mem_range.mp hi))
  have hfits := block.fits
  have hpos := block.pos
  have hsize := size_pos T
  rw [Nat.succ_mul] at hle
  unfold element
  omega

/-! ### Pointers in memory -/

theorem readPointer_eq {m : Int → UInt8} {p value : Nat} (h : value < 256 ^ T.ptrSize)
    (hbytes : ∀ k : Nat, k < T.ptrSize → m (p + k) = (leBytes T.ptrSize value).getD k 0) :
    readPointer T m p = value := by
  have hlist := map_getD_range (leBytes T.ptrSize value) 0
  rw [length_leBytes] at hlist
  have hload : load m p T.ptrSize = leBytes T.ptrSize value := by
    rw [← hlist]
    exact List.map_congr_left fun k hk => hbytes k (List.mem_range.mp hk)
  rw [readPointer, hload, leNat_leBytes_of_lt h]

theorem readPointer_writePointer (m : Int → UInt8) (p : Nat) {value : Nat}
    (h : value < 256 ^ T.ptrSize) : readPointer T (writePointer T m p value) p = value := by
  refine readPointer_eq h fun k hk => ?_
  rw [writePointer, store, if_pos (by omega)]
  congr 1
  omega

theorem readPointer_store (m : Int → UInt8) {a b k : Nat} (src : Nat → UInt8) (hk : k ≤ T.size)
    (h : a + T.size ≤ b ∨ b + T.size ≤ a) :
    readPointer T (store m a k src) b = readPointer T m b := by
  have hfits := T.fits
  rw [readPointer, load_store_apart m src (by omega), readPointer]

/-! ### The invariant -/

/-- A pool and the elements that have been handed out. -/
structure Lent where
  pool : Pool
  acquired : List Nat

/-- The free elements are threaded from the head, zero but for their links, and with those
handed out they are all the elements there are. -/
structure Sound (T : ElementType) (base n : Nat) (s : Lent) (free : List Nat) : Prop where
  threaded : Threaded (readPointer T s.pool.memory) s.pool.freeHead free
  clear : ∀ a ∈ free, ∀ k : Nat, T.ptrSize ≤ k → k < T.size → s.pool.memory (a + k) = 0
  split : (free ++ s.acquired).Perm (elements T base n)
  available : s.pool.available = free.length

section Sound

variable {s : Lent} {free : List Nat}

theorem Sound.mem_free (h : Sound T base n s free) {a : Nat} (ha : a ∈ free) :
    a ∈ elements T base n :=
  h.split.subset (List.mem_append_left _ ha)

theorem Sound.mem_acquired (h : Sound T base n s free) {a : Nat} (ha : a ∈ s.acquired) :
    a ∈ elements T base n :=
  h.split.subset (List.mem_append_right _ ha)

theorem Sound.nodup (h : Sound T base n s free) : (free ++ s.acquired).Nodup :=
  h.split.nodup_iff.mpr nodup_elements

/-- Everything is handed out exactly if nothing is free. -/
theorem Sound.free_eq_nil_iff (h : Sound T base n s free) :
    free = [] ↔ ∀ a ∈ elements T base n, a ∈ s.acquired := by
  constructor
  · intro hnil a ha
    have hmem := h.split.symm.subset ha
    rwa [hnil, List.nil_append] at hmem
  · intro hall
    refine List.eq_nil_iff_forall_not_mem.mpr fun a ha => ?_
    exact List.disjoint_of_nodup_append h.nodup ha (hall a (h.mem_free ha))

theorem Sound.length_free (h : Sound T base n s free) :
    free.length + s.acquired.length = n := by
  have hlen := h.split.length_eq
  rwa [List.length_append, elements, List.length_map, List.length_range] at hlen

/-! ### The operations -/

/-- A free element is taken: it comes from the front of the list, and is zero. -/
theorem Sound.acquire {a : Nat} {rest : List Nat} (h : Sound T base n s (a :: rest)) :
    (s.pool.acquire T).1 = a ∧ a ∉ s.acquired ∧
      (∀ k : Nat, k < T.size → (s.pool.acquire T).2.memory (a + k) = 0) ∧
      Sound T base n ⟨(s.pool.acquire T).2, a :: s.acquired⟩ rest := by
  obtain ⟨hhead, hne, hrest⟩ := h.threaded
  have hnodup := h.nodup
  rw [List.cons_append, List.nodup_cons, List.mem_append, not_or] at hnodup
  obtain ⟨⟨hnew, hfree⟩, -⟩ := hnodup
  have hpool : s.pool.acquire T = (a, { s.pool with
      freeHead := readPointer T s.pool.memory a
      memory := clearBytes s.pool.memory a T.ptrSize
      available := s.pool.available - 1 }) := by
    rw [Pool.acquire, hhead, if_neg hne]
  have hother : ∀ b ∈ rest, a + T.size ≤ b ∨ b + T.size ≤ a := by
    intro b hb
    refine apart (h.mem_free List.mem_cons_self) (h.mem_free (List.mem_cons_of_mem a hb)) ?_
    rintro rfl
    exact hnew hb
  rw [hpool]
  refine ⟨rfl, hfree, ?_, ?_, ?_, ?_, ?_⟩
  · intro k hk
    show store s.pool.memory a T.ptrSize (fun _ => 0) (a + k) = 0
    by_cases hlink : k < T.ptrSize
    · rw [store, if_pos (by omega)]
    · rw [store_of_not_mem _ _ (by omega)]
      exact h.clear a List.mem_cons_self k (by omega) hk
  · exact hrest.congr fun b hb =>
      readPointer_store s.pool.memory (fun _ => 0) T.fits (hother b hb)
  · intro b hb k hlow hhigh
    have happart := hother b hb
    show store s.pool.memory a T.ptrSize (fun _ => 0) (b + k) = 0
    rw [store_of_not_mem _ _ (by omega)]
    exact h.clear b (List.mem_cons_of_mem a hb) k hlow hhigh
  · exact List.perm_middle.trans h.split
  · show s.pool.available - 1 = rest.length
    rw [h.available, List.length_cons]
    omega

theorem acquire_of_nil (h : Sound T base n s []) : s.pool.acquire T = (0, s.pool) :=
  if_pos h.threaded

/-- An element is given back: it is cleared and put in front. -/
theorem Sound.release (block : Allocation T n) (h : Sound T block.base n s free) {a : Nat}
    (ha : a ∈ s.acquired) :
    Sound T block.base n ⟨s.pool.release T a, s.acquired.erase a⟩ (a :: free) := by
  have hrange := element_range block (h.mem_acquired ha)
  have hother : ∀ b ∈ free, a + T.size ≤ b ∨ b + T.size ≤ a := by
    intro b hb
    refine apart (h.mem_acquired ha) (h.mem_free hb) ?_
    rintro rfl
    exact List.disjoint_of_nodup_append h.nodup hb ha
  -- The head is an element or null, and can be stored in either case.
  have hhead : s.pool.freeHead < 256 ^ T.ptrSize := by
    cases free with
    | nil =>
      rw [show s.pool.freeHead = 0 from h.threaded]
      omega
    | cons b rest =>
      rw [h.threaded.1]
      exact (element_range block (h.mem_free List.mem_cons_self)).2
  rw [Pool.release, if_neg (Nat.ne_of_gt hrange.1)]
  refine ⟨?_, ?_, ?_, ?_⟩
  · refine h.threaded.push (Nat.ne_of_gt hrange.1) (readPointer_writePointer _ _ hhead) ?_
    intro b hb
    show readPointer T (writePointer T (clearBytes s.pool.memory a T.size) a s.pool.freeHead) b = _
    rw [writePointer, readPointer_store _ _ T.fits (hother b hb), clearBytes,
      readPointer_store _ _ (Nat.le_refl _) (hother b hb)]
  · intro b hb k hlow hhigh
    show store (store s.pool.memory a T.size fun _ => 0) a T.ptrSize
      ((leBytes T.ptrSize s.pool.freeHead).getD · 0) (b + k) = 0
    rcases List.mem_cons.mp hb with rfl | hb
    · rw [store_of_not_mem _ _ (by omega), store, if_pos (by omega)]
    · have happart := hother b hb
      rw [store_of_not_mem _ _ (by omega), store_of_not_mem _ _ (by omega)]
      exact h.clear b hb k hlow hhigh
  · have hback : (a :: s.acquired.erase a).Perm s.acquired := (List.perm_cons_erase ha).symm
    exact (List.perm_middle.symm.trans (hback.append_left free)).trans h.split
  · show s.pool.available + 1 = (a :: free).length
    rw [h.available, List.length_cons, Int.natCast_add]
    rfl

/-- Others write to the memory, but not to the free elements. -/
theorem Sound.write (h : Sound T base n s free) {m : Int → UInt8}
    (hm : ∀ a ∈ elements T base n, a ∉ s.acquired → ∀ k : Nat, k < T.size →
      m (a + k) = s.pool.memory (a + k)) :
    Sound T base n { s with pool := { s.pool with memory := m } } free := by
  have hfree : ∀ a ∈ free, ∀ k : Nat, k < T.size → m (a + k) = s.pool.memory (a + k) := by
    intro a ha
    exact hm a (h.mem_free ha) fun hacq => List.disjoint_of_nodup_append h.nodup ha hacq
  refine ⟨?_, ?_, h.split, h.available⟩
  · refine h.threaded.congr fun a ha => ?_
    exact congrArg leNat (load_congr fun k hk => hfree a ha k (Nat.lt_of_lt_of_le hk T.fits))
  · intro a ha k hlow hhigh
    exact (hfree a ha k hhigh).trans (h.clear a ha k hlow hhigh)

end Sound

/-! ### The start -/

/-- What a pointer written to one element shows in the bytes of the elements. -/
theorem writePointer_byte (m : Int → UInt8) (i value : Nat) (j : Nat) {k : Nat} (hk : k < T.size) :
    writePointer T m (element T base i) value (element T base j + k) =
      if j = i ∧ k < T.ptrSize then (leBytes T.ptrSize value).getD k 0
      else m (element T base j + k) := by
  have hfits := T.fits
  rw [writePointer]
  split
  · rename_i h
    rw [h.1, store, if_pos (by omega)]
    congr 1
    omega
  · rename_i h
    refine store_of_not_mem _ _ ?_
    rcases Nat.lt_trichotomy j i with hji | rfl | hij
    · have := element_apart T base hji
      omega
    · omega
    · have := element_apart T base hij
      omega

/-- The bytes of the elements after some rounds of the loop of `init`. -/
theorem linkElements_byte {m : Int → UInt8} {j k : Nat} (hzero : m (element T base j + k) = 0)
    (hk : k < T.size) (rounds : Nat) :
    linkElements T m base rounds (element T base j + k) =
      if j < rounds ∧ k < T.ptrSize then (leBytes T.ptrSize (element T base (j + 1))).getD k 0
      else 0 := by
  induction rounds with
  | zero => simpa [linkElements] using hzero
  | succ rounds ih =>
    rw [linkElements, writePointer_byte _ _ _ _ hk, ih]
    by_cases hlink : k < T.ptrSize
    · by_cases hj : j = rounds
      · simp [hj, hlink]
      · simp only [hj, hlink, and_true, if_false]
        congr 1
        simp only [eq_iff_iff]
        omega
    · simp [hlink]

/-- The bytes of the elements after `init`. -/
theorem threadElements_byte (m : Int → UInt8) {j k : Nat} (hj : j < n) (hk : k < T.size) :
    threadElements T m base n (element T base j + k) =
      if k < T.ptrSize then
        (leBytes T.ptrSize (if j + 1 < n then element T base (j + 1) else 0)).getD k 0
      else 0 := by
  have hzero : clearBytes m base (T.size * n) (element T base j + k) = 0 := by
    have hend := element_apart T base hj
    have hlast : element T base n = base + T.size * n := by rw [element, Nat.mul_comm]
    have hfirst : base ≤ element T base j := Nat.le_add_right _ _
    rw [clearBytes, store, if_pos (by omega)]
  rw [threadElements, writePointer_byte _ _ _ _ hk, linkElements_byte hzero hk]
  by_cases hlink : k < T.ptrSize
  · by_cases hlast : j = n - 1
    · rw [if_pos ⟨hlast, hlink⟩, if_pos hlink, if_neg (by omega)]
    · rw [if_neg (fun h => hlast h.1), if_pos ⟨by omega, hlink⟩, if_pos hlink, if_pos (by omega)]
  · rw [if_neg (fun h => hlink h.2), if_neg (fun h => hlink h.2), if_neg hlink]

theorem element_mem {i : Nat} (hi : i < n) : element T base i ∈ elements T base n :=
  List.mem_map_of_mem (List.mem_range.mpr hi)

/-- The links after `init`. -/
theorem readPointer_threadElements (block : Allocation T n) (m : Int → UInt8) {i : Nat}
    (hi : i < n) :
    readPointer T (threadElements T m block.base n) (element T block.base i) =
      if i + 1 < n then element T block.base (i + 1) else 0 := by
  have hvalue : (if i + 1 < n then element T block.base (i + 1) else 0) < 256 ^ T.ptrSize := by
    split
    · rename_i hnext
      exact (element_range block (element_mem hnext)).2
    · exact Nat.pow_pos (by decide)
  refine readPointer_eq hvalue fun k hk => ?_
  rw [threadElements_byte m hi (Nat.lt_of_lt_of_le hk T.fits), if_pos hk]

/-- **After `init` every element is free**, in the order they lie in. -/
theorem sound_init {p : Pool} {capacity : Int} {allocated : Option (Allocation T capacity.toNat)}
    (h : (p.init T capacity allocated).1 = true) :
    0 < capacity ∧ ∃ block : Allocation T capacity.toNat,
      block.base = (p.init T capacity allocated).2.storage ∧
      Sound T block.base capacity.toNat ⟨(p.init T capacity allocated).2, []⟩
        (elements T block.base capacity.toNat) := by
  by_cases hrefused : capacity ≤ 0 ∨ p.storage ≠ 0
  · rw [Pool.init, if_pos hrefused] at h
    exact absurd h Bool.false_ne_true
  rw [Pool.init, if_neg hrefused] at h ⊢
  cases allocated with
  | none => exact absurd h Bool.false_ne_true
  | some block =>
    have hn : 0 < capacity.toNat := by omega
    refine ⟨by omega, block, rfl, ?_, ?_, ?_, ?_⟩
    · have hthread := threaded_range (element T block.base) capacity.toNat
        (fun i hi => Nat.ne_of_gt (element_range block (element_mem hi)).1)
        (fun i hi => readPointer_threadElements block p.memory hi) capacity.toNat 0
        (Nat.zero_add _)
      rw [if_pos hn, element, Nat.zero_mul, Nat.add_zero, ← List.range_eq_range'] at hthread
      exact hthread
    · intro a ha k hlow hhigh
      obtain ⟨i, hi, rfl⟩ := List.mem_map.mp ha
      show threadElements T p.memory block.base capacity.toNat (element T block.base i + k) = 0
      rw [threadElements_byte _ (List.mem_range.mp hi) hhigh, if_neg (by omega)]
    · rw [List.append_nil]
    · show capacity = (elements T block.base capacity.toNat).length
      rw [elements, List.length_map, List.length_range]
      omega

/-! ### Runs -/

/-- What happens to a pool. -/
inductive Use where
  | acquire
  | release (address : Nat)
  /-- The memory is written to. -/
  | write (memory : Int → UInt8)

/-- The pool after the use of it. -/
def use (T : ElementType) (s : Lent) : Use → Lent
  | .acquire =>
    let (address, pool) := s.pool.acquire T
    ⟨pool, if address = 0 then s.acquired else address :: s.acquired⟩
  | .release address => ⟨s.pool.release T address, s.acquired.erase address⟩
  | .write memory => { s with pool := { s.pool with memory := memory } }

/-- Only null and what has been handed out is released, and nobody writes to an element that
has not been handed out. -/
def Proper (T : ElementType) (base n : Nat) (s : Lent) : Use → Prop
  | .acquire => True
  | .release address => address = 0 ∨ address ∈ s.acquired
  | .write memory => ∀ a ∈ elements T base n, a ∉ s.acquired → ∀ k : Nat, k < T.size →
      memory (a + k) = s.pool.memory (a + k)

instance (T : ElementType) (base n : Nat) (s : Lent) (u : Use) :
    Decidable (Proper T base n s u) := by
  cases u <;> dsimp only [Proper] <;> infer_instance

/-- **A proper use keeps the invariant.** -/
theorem Sound.use (block : Allocation T n) {s : Lent} {free : List Nat}
    (h : Sound T block.base n s free) {u : Use} (hu : Proper T block.base n s u) :
    ∃ free', Sound T block.base n (use T s u) free' := by
  cases u with
  | acquire =>
    cases free with
    | nil =>
      refine ⟨[], ?_⟩
      simp only [Pool.use, acquire_of_nil h, if_pos]
      exact h
    | cons a rest =>
      obtain ⟨hadr, -, -, hnext⟩ := h.acquire
      refine ⟨rest, ?_⟩
      have hne : a ≠ 0 := h.threaded.2.1
      simp only [Pool.use, hadr, if_neg hne]
      exact hnext
  | release address =>
    rcases hu with rfl | hmem
    · refine ⟨free, ?_⟩
      have hnull : 0 ∉ s.acquired := fun hzero =>
        absurd (element_range block (h.mem_acquired hzero)).1 (Nat.lt_irrefl 0)
      rw [Pool.use, Pool.release, if_pos rfl, List.erase_of_not_mem hnull]
      exact h
    · exact ⟨address :: free, h.release block hmem⟩
  | write memory => exact ⟨free, h.write hu⟩

/-- **Each element has one owner.**  After an `init` that returned true, and any proper use:
what has been handed out are different elements; `available` is the number of the others;
`acquire` returns null exactly when all have been handed out, and otherwise one that has
not, all of whose bytes are zero. -/
theorem pool_one_owner (T : ElementType) (p : Pool) (capacity : Int)
    (allocated : Option (Allocation T capacity.toNat))
    (hinit : (p.init T capacity allocated).1 = true) (uses : List Use)
    (hproper : Along (use T)
      (Proper T (p.init T capacity allocated).2.storage capacity.toNat)
      ⟨(p.init T capacity allocated).2, []⟩ uses) :
    let s := run (use T) ⟨(p.init T capacity allocated).2, []⟩ uses
    let all := elements T (p.init T capacity allocated).2.storage capacity.toNat
    s.acquired.Nodup ∧ (∀ a ∈ s.acquired, a ∈ all) ∧
    s.pool.available = capacity - s.acquired.length ∧
    ((s.pool.acquire T).1 = 0 ↔ ∀ a ∈ all, a ∈ s.acquired) ∧
    ((s.pool.acquire T).1 ≠ 0 →
      (s.pool.acquire T).1 ∈ all ∧ (s.pool.acquire T).1 ∉ s.acquired ∧
        ∀ k : Nat, k < T.size → (s.pool.acquire T).2.memory ((s.pool.acquire T).1 + k) = 0) := by
  intro s all
  obtain ⟨hcap, block, hbase, hstart⟩ := sound_init hinit
  have hsound : ∃ free, Sound T block.base capacity.toNat s free := by
    rw [← hbase] at hproper
    exact run_invariant (fun s => ∃ free, Sound T block.base capacity.toNat s free)
      (fun s u h hu => h.elim fun _ hfree => hfree.use block hu) ⟨_, hstart⟩ hproper
  have hall : all = elements T block.base capacity.toNat := by rw [hbase]
  obtain ⟨free, h⟩ := hsound
  have hlen := h.length_free
  have havail := h.available
  rw [hall]
  refine ⟨h.nodup.of_append_right, fun a ha => h.mem_acquired ha, by omega, ?_, ?_⟩
  · rw [← h.free_eq_nil_iff]
    cases free with
    | nil => simp [acquire_of_nil h]
    | cons a rest => simp [h.acquire.1, h.threaded.2.1]
  · cases free with
    | nil =>
      intro hne
      exact absurd (by rw [acquire_of_nil h]) hne
    | cons a rest =>
      intro _
      obtain ⟨hadr, hnew, hclear, -⟩ := h.acquire
      rw [hadr]
      exact ⟨h.mem_free List.mem_cons_self, hnew, hclear⟩

/-- Elements of 16 bytes with pointers of 8. -/
def pairType : ElementType := ⟨16, 8, by decide, by decide⟩

/-- Two of them. -/
def pairBlock : Allocation pairType (2 : Int).toNat := ⟨64, by decide, by decide⟩

/-- The first is handed out, filled and given back. -/
def fillAndRelease : List Use :=
  [.acquire, .write fun i => if 64 ≤ i ∧ i < 80 then 7 else 0, .release 64]

/-- It is the next one to be handed out, and it is zero. -/
theorem released_element_is_zero :
    let p : Pool := { memory := fun _ => 1 }
    let s := run (use pairType) ⟨(p.init pairType 2 (some pairBlock)).2, []⟩ fillAndRelease
    (s.pool.acquire pairType).1 = 64 ∧
      ∀ k : Nat, k < 16 → (s.pool.acquire pairType).2.memory ((s.pool.acquire pairType).1 + k) = 0 := by
  intro p s
  have haddress : (s.pool.acquire pairType).1 = 64 := by decide +kernel
  have howner := pool_one_owner pairType p 2 (some pairBlock) rfl fillAndRelease
    (by decide +kernel)
  refine ⟨haddress, (howner.2.2.2.2 ?_).2.2⟩
  rw [haddress]
  decide

end Pool

end Netudp
