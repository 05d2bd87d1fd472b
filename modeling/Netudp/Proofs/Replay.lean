/-
What the replay window remembers.

The table keeps one nonce per residue modulo 256, and a newer nonce overwrites an
older one of its class.  Nothing is lost by that: the two are at least 256 apart,
so the older one is already out of the window and is rejected by the age test.
`Window` is the invariant that says so, relating the table to the list of nonces
accepted so far, and `isDuplicate_iff` reads the exact rejection rule off it.

The age test adds 256 to a 64-bit nonce, so the rule holds of nonces below
`2 ^ 64 - 256`; above that the sum wraps and the test rejects fresh nonces.
-/
import Netudp.Crypto.Replay

namespace Netudp

open Lib

namespace ReplayProtection

/-- Nonces the age test does not wrap on. -/
def Unwrapped (n : Nat) : Prop := n + windowSize < u64Size
deriving Decidable

/-- The nonces `accepted`, as the window holds them. -/
structure Window (r : ReplayProtection) (accepted : List Nat) : Prop where
  /-- The newest nonce is the largest accepted one, zero if there is none. -/
  newest : r.mostRecent = accepted.foldr max 0
  /-- Every accepted nonce is below the wrap. -/
  unwrapped : ∀ n ∈ accepted, Unwrapped n
  /-- A cell that is not empty holds an accepted nonce of its own class. -/
  cell : ∀ k, r.received.get k = emptySlot ∨
    (r.received.get k ∈ accepted ∧ r.received.get k % windowSize = k % windowSize)
  /-- An accepted nonce is still in its cell or is out of the window. -/
  kept : ∀ n ∈ accepted, r.received.get n = n ∨ n + windowSize ≤ r.mostRecent

theorem le_foldr_max {n : Nat} {l : List Nat} (h : n ∈ l) : n ≤ l.foldr max 0 := by
  induction l with
  | nil => simp at h
  | cons x rest ih =>
    rcases List.mem_cons.mp h with rfl | hmem
    · exact Nat.le_max_left _ _
    · exact Nat.le_trans (ih hmem) (Nat.le_max_right _ _)

theorem foldr_max_mem : ∀ {l : List Nat}, l ≠ [] → l.foldr max 0 ∈ l := by
  intro l
  induction l with
  | nil => intro h; exact absurd rfl h
  | cons x rest ih =>
    intro _
    by_cases hrest : rest = []
    · subst hrest
      simp
    · have hmax := ih hrest
      show max x (rest.foldr max 0) ∈ x :: rest
      rcases Nat.le_total x (rest.foldr max 0) with hle | hle
      · rw [Nat.max_eq_right hle]
        exact List.mem_cons_of_mem _ hmax
      · rw [Nat.max_eq_left hle]
        exact List.mem_cons_self

theorem window_reset : Window reset [] where
  newest := rfl
  unwrapped := by intro n hn; simp at hn
  cell := fun k => Or.inl (Table.get_fill emptySlot k)
  kept := by intro n hn; simp at hn

variable {r : ReplayProtection} {accepted : List Nat}

theorem Window.le_newest (h : Window r accepted) {n : Nat} (hn : n ∈ accepted) :
    n ≤ r.mostRecent := by
  rw [h.newest]
  exact le_foldr_max hn

theorem ne_emptySlot {n : Nat} (h : Unwrapped n) : n ≠ emptySlot := by
  unfold Unwrapped u64Size windowSize at h
  unfold emptySlot u64Size
  omega

/-- **The window rejects exactly the accepted nonces and those 256 behind.** -/
theorem isDuplicate_iff (h : Window r accepted) {n : Nat} (hn : Unwrapped n) :
    r.isDuplicate n = true ↔ n ∈ accepted ∨ n + windowSize ≤ r.mostRecent := by
  have hsum : (n + windowSize) % u64Size = n + windowSize := Nat.mod_eq_of_lt hn
  unfold isDuplicate
  by_cases hold : n + windowSize ≤ r.mostRecent
  · have hboth : windowSize ≤ r.mostRecent ∧ (n + windowSize) % u64Size ≤ r.mostRecent := by
      rw [hsum]
      exact ⟨by omega, hold⟩
    rw [if_pos hboth]
    simp [hold]
  · have hnot : ¬ (windowSize ≤ r.mostRecent ∧ (n + windowSize) % u64Size ≤ r.mostRecent) := by
      rw [hsum]
      exact fun hc => hold hc.2
    rw [if_neg hnot]
    simp only [Bool.and_eq_true, bne_iff_ne, ne_eq, beq_iff_eq, hold, or_false]
    constructor
    · rintro ⟨hne, heq⟩
      rcases h.cell n with hempty | ⟨hmem, -⟩
      · exact absurd hempty hne
      · rwa [heq] at hmem
    · intro hmem
      rcases h.kept n hmem with hcell | hfar
      · exact ⟨by rw [hcell]; exact ne_emptySlot hn, hcell⟩
      · exact absurd hfar hold

theorem Window.advance (h : Window r accepted) {n : Nat} (hn : Unwrapped n)
    (hdup : r.isDuplicate n = false) : Window (r.advance n) (n :: accepted) := by
  have hnew : (r.advance n).mostRecent = max n r.mostRecent := by
    simp only [ReplayProtection.advance]
    split <;> omega
  have hfresh : ¬ (n ∈ accepted ∨ n + windowSize ≤ r.mostRecent) := by
    rw [← isDuplicate_iff h hn, hdup]
    simp
  refine ⟨?_, ?_, ?_, ?_⟩
  · rw [hnew, h.newest]
    rfl
  · intro m hm
    rcases List.mem_cons.mp hm with rfl | hm'
    · exact hn
    · exact h.unwrapped m hm'
  · intro k
    simp only [ReplayProtection.advance, Table.get_set]
    by_cases hk : k % 256 = n % 256
    · rw [if_pos hk]
      exact Or.inr ⟨List.mem_cons_self, hk.symm⟩
    · rw [if_neg hk]
      rcases h.cell k with hempty | ⟨hmem, hres⟩
      · exact Or.inl hempty
      · exact Or.inr ⟨List.mem_cons_of_mem _ hmem, hres⟩
  · intro m hm
    rw [hnew]
    simp only [ReplayProtection.advance, Table.get_set]
    by_cases hk : m % 256 = n % 256
    · rw [if_pos hk]
      -- The cell of `m` was just overwritten: either `m` is the new nonce, or the
      -- two are a window apart and the older one is out.
      rcases List.mem_cons.mp hm with rfl | hm'
      · exact Or.inl rfl
      · rcases eq_or_far_of_mod_eq hk with heq | hfar | hfar
        · exact absurd (Or.inl (heq ▸ hm')) hfresh
        · refine Or.inr ?_
          show m + 256 ≤ max n r.mostRecent
          omega
        · have hle := h.le_newest hm'
          exact absurd (Or.inr (show n + 256 ≤ r.mostRecent by omega)) hfresh
    · rw [if_neg hk]
      rcases List.mem_cons.mp hm with rfl | hm'
      · exact absurd rfl hk
      · rcases h.kept m hm' with hcell | hfar
        · exact Or.inl hcell
        · exact Or.inr (by omega)

theorem le_mostRecent_advance (r : ReplayProtection) (n : Nat) :
    n ≤ (r.advance n).mostRecent := by
  simp only [ReplayProtection.advance]
  split <;> omega

/-- The window rejects none of the nonces from `n` on. -/
def OpenFrom (r : ReplayProtection) (n : Nat) : Prop :=
  ∀ m, n ≤ m → Unwrapped m → r.isDuplicate m = false

/-- It does not if it has accepted none of them. -/
theorem Window.openFrom (h : Window r accepted) {n : Nat} (hnone : ∀ k ∈ accepted, k < n) :
    OpenFrom r n := by
  intro m hm hunw
  rw [← Bool.not_eq_true, isDuplicate_iff h hunw]
  rintro (hmem | hfar)
  · have := hnone m hmem
    omega
  · have hnewest : r.mostRecent ∈ accepted := by
      rw [h.newest] at hfar ⊢
      refine foldr_max_mem ?_
      rintro rfl
      simp [windowSize] at hfar
    have := hnone _ hnewest
    omega

theorem openFrom_reset : OpenFrom reset 0 := window_reset.openFrom (by simp)

/-- Accepting the first of them closes the window to no other: the cell it overwrites held
none of them. -/
theorem OpenFrom.advance {n : Nat} (h : OpenFrom r n) : OpenFrom (r.advance n) (n + 1) := by
  intro m hm hunw
  have hold := h m (by omega) hunw
  have hsum : (m + windowSize) % u64Size = m + windowSize := Nat.mod_eq_of_lt hunw
  simp only [isDuplicate, hsum, ReplayProtection.advance, Table.get_set] at hold ⊢
  split at hold
  · cases hold
  · rename_i hfresh
    rw [if_neg (by unfold windowSize at hfresh ⊢; split <;> omega)]
    split
    · have hne : n ≠ m := by omega
      simp [hne]
    · exact hold

/-! ### Receiving in order

Both endpoints decrypt with one past the newest nonce, so what they accept is always
an initial segment of the nonces.  `UpTo r m` is the window in that case.
-/

/-- The window after exactly the nonces below `m`. -/
def UpTo (r : ReplayProtection) (m : Nat) : Prop :=
  ∃ accepted, Window r accepted ∧ ∀ i, i ∈ accepted ↔ i < m

theorem upTo_reset : UpTo reset 0 :=
  ⟨[], window_reset, by simp⟩

variable {m n : Nat}

/-- Nonces stop being accepted 256 short of the wrap. -/
theorem UpTo.le (h : UpTo r m) : m + windowSize ≤ u64Size := by
  obtain ⟨accepted, hwin, hmem⟩ := h
  rcases Nat.eq_zero_or_pos m with hz | hp
  · subst hz
    decide
  · have hlast := hwin.unwrapped (m - 1) ((hmem (m - 1)).mpr (by omega))
    unfold Unwrapped at hlast
    omega

theorem UpTo.mostRecent_zero (h : UpTo r 0) : r.mostRecent = 0 := by
  obtain ⟨accepted, hwin, hmem⟩ := h
  have hnil : accepted = [] := List.eq_nil_iff_forall_not_mem.mpr fun i hi => by
    have := (hmem i).mp hi
    omega
  rw [hwin.newest, hnil]
  rfl

theorem UpTo.mostRecent_succ (h : UpTo r (m + 1)) : r.mostRecent = m := by
  obtain ⟨accepted, hwin, hmem⟩ := h
  have hm : m ∈ accepted := (hmem m).mpr (by omega)
  have hlow := hwin.le_newest hm
  have hhigh : r.mostRecent < m + 1 := by
    rw [hwin.newest]
    exact (hmem _).mp (foldr_max_mem (List.ne_nil_of_mem hm))
  omega

theorem UpTo.isDuplicate_next (h : UpTo r m) (hm : Unwrapped m) : r.isDuplicate m = false := by
  have hnewest : r.mostRecent ≤ m := by
    rcases Nat.eq_zero_or_pos m with hz | hp
    · subst hz
      rw [h.mostRecent_zero]
    · obtain ⟨k, rfl⟩ := Nat.exists_eq_succ_of_ne_zero (Nat.pos_iff_ne_zero.mp hp)
      rw [h.mostRecent_succ]
      omega
  obtain ⟨accepted, hwin, hmem⟩ := h
  rw [← Bool.not_eq_true, isDuplicate_iff hwin hm, hmem]
  unfold windowSize
  omega

/-- At the wrap the age test rejects even the next nonce. -/
theorem UpTo.isDuplicate_wrap (h : UpTo r m) (hm : ¬ Unwrapped m) : r.isDuplicate m = true := by
  have hle := h.le
  unfold Unwrapped at hm
  have hsum : m + windowSize = u64Size := by omega
  have hpos : 0 < m := by
    unfold u64Size windowSize at hsum
    omega
  obtain ⟨k, rfl⟩ := Nat.exists_eq_succ_of_ne_zero (Nat.pos_iff_ne_zero.mp hpos)
  have hnewest := h.mostRecent_succ
  unfold isDuplicate
  rw [hsum, Nat.mod_self, hnewest, if_pos]
  unfold u64Size windowSize at hsum
  unfold windowSize
  omega

theorem UpTo.advance (h : UpTo r m) (hm : Unwrapped m) : UpTo (r.advance m) (m + 1) := by
  have hdup := h.isDuplicate_next hm
  obtain ⟨accepted, hwin, hmem⟩ := h
  refine ⟨m :: accepted, hwin.advance hm hdup, ?_⟩
  intro i
  rw [List.mem_cons, hmem]
  omega

/-- Cell zero is empty exactly until nonce zero arrives. -/
theorem UpTo.cell_zero (h : UpTo r m) (hmost : r.mostRecent = 0) :
    r.received.get 0 = emptySlot ↔ m = 0 := by
  obtain ⟨accepted, hwin, hmem⟩ := h
  constructor
  · intro hempty
    by_contra hne
    have hacc : 0 ∈ accepted := (hmem 0).mpr (Nat.pos_of_ne_zero hne)
    rcases hwin.kept 0 hacc with hcell | hfar
    · rw [hcell] at hempty
      exact absurd hempty (by decide)
    · rw [hmost] at hfar
      exact absurd hfar (by decide)
  · rintro rfl
    rcases hwin.cell 0 with hempty | ⟨hacc, -⟩
    · exact hempty
    · have := (hmem _).mp hacc
      omega

end ReplayProtection

end Netudp
