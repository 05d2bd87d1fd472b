/-
Linear probing.

A table of `N` cells on a circle, each free or holding an entry.  An entry has a home
cell and is put into the first free cell from there on, so every cell on its way from
home is taken; a lookup may stop at the first free cell.

Taking an entry out leaves a hole that may lie on the way of others.  The walk that
repairs this goes over the cells behind the hole and puts each entry in again.  An entry
whose way crosses the hole moves into it, and the hole is then where it was; any other
comes back to its own cell.  `HoleAt` is the invariant: no way crosses a free cell other
than the hole, and the entries whose way crosses the hole are still ahead of the walk.
At the first free cell there are none left.  `displacement` bounds the walk: a move
brings an entry nearer to its home.
-/
import Netudp.Lib.Serial
import Mathlib.Algebra.BigOperators.Fin
import Mathlib.Algebra.Order.BigOperators.Group.Finset

namespace Lib

/-! ### The circle -/

/-- The number of steps from cell `a` to cell `b`. -/
def stepsTo (N a b : Nat) : Nat :=
  ahead N (a % N) (b % N)

variable {N : Nat}

theorem stepsTo_congr {a a' b b' : Nat} (ha : a % N = a' % N) (hb : b % N = b' % N) :
    stepsTo N a b = stepsTo N a' b' := by
  unfold stepsTo
  rw [ha, hb]

theorem stepsTo_add {a d : Nat} (hd : d < N) : stepsTo N a (a + d) = d := by
  unfold stepsTo
  rw [ahead_mod (by omega) (by omega), Nat.add_sub_cancel_left]

/-- The cells that hold an entry. -/
def Table.taken {α : Type*} (t : Table N (Option α)) : Finset (Fin N) :=
  Finset.univ.filter fun c => (t.cells c).isSome

theorem Table.taken_card_le {α : Type*} (t : Table N (Option α)) : t.taken.card ≤ N := by
  have hle := Finset.card_le_univ t.taken
  rwa [Fintype.card_fin] at hle

/-- A walk that goes on past the cells of `P` may start behind them. -/
theorem walk_pass {β : Type*} {walk : Nat → Nat → β} {P : Nat → Prop}
    (hstep : ∀ n slot, P slot → walk (n + 1) slot = walk n (slot + 1)) (n : Nat) :
    ∀ d slot, (∀ i < d, P (slot + i)) → walk (d + n) slot = walk n (slot + d) := by
  intro d
  induction d with
  | zero =>
    intro slot _
    rw [Nat.zero_add, Nat.add_zero]
  | succ d ih =>
    intro slot hpass
    have hrest : ∀ i < d, P (slot + 1 + i) := by
      intro i hi
      rw [Nat.add_right_comm, Nat.add_assoc]
      exact hpass (i + 1) (Nat.succ_lt_succ hi)
    have hfirst : P slot := hpass 0 (Nat.succ_pos d)
    rw [Nat.add_right_comm, hstep _ _ hfirst, ih (slot + 1) hrest, Nat.add_assoc,
      Nat.add_comm 1]

variable [NeZero N]

theorem stepsTo_eq (a b : Nat) :
    stepsTo N a b = if a % N ≤ b % N then b % N - a % N else b % N + N - a % N := by
  have hb := Nat.mod_lt b (Nat.pos_of_neZero N)
  unfold stepsTo ahead
  split
  · rw [show b % N + N - a % N = b % N - a % N + N by omega, Nat.add_mod_right,
      Nat.mod_eq_of_lt (by omega)]
  · rw [Nat.mod_eq_of_lt (by omega)]

theorem stepsTo_self (a : Nat) : stepsTo N a a = 0 := by
  rw [stepsTo_eq, if_pos (Nat.le_refl _), Nat.sub_self]

theorem stepsTo_lt (a b : Nat) : stepsTo N a b < N :=
  ahead_lt (Nat.pos_of_neZero N) _ _

theorem add_stepsTo (a b : Nat) : (a + stepsTo N a b) % N = b % N := by
  have ha := Nat.mod_lt a (Nat.pos_of_neZero N)
  have hb := Nat.mod_lt b (Nat.pos_of_neZero N)
  rw [Nat.add_mod, stepsTo_eq]
  split
  · rw [Nat.mod_eq_of_lt (show b % N - a % N < N by omega),
      show a % N + (b % N - a % N) = b % N by omega, Nat.mod_mod]
  · rw [Nat.mod_eq_of_lt (show b % N + N - a % N < N by omega),
      show a % N + (b % N + N - a % N) = b % N + N by omega, Nat.add_mod_right, Nat.mod_mod]

/-- From the next cell every other cell is one step nearer. -/
theorem stepsTo_succ {a b : Nat} (hne : b % N ≠ a % N) :
    stepsTo N (a + 1) b + 1 = stepsTo N a b := by
  have ha := Nat.mod_lt a (Nat.pos_of_neZero N)
  have hb := Nat.mod_lt b (Nat.pos_of_neZero N)
  unfold stepsTo
  rw [← ahead_succ ha hb (Ne.symm hne), Nat.mod_add_mod]

/-- Cells on the way from `h` to `c` past `H`, and on the way from `F` to `H`, have `F`
on their way. -/
theorem stepsTo_between {h c H F : Nat} (hpass : stepsTo N h H < stepsTo N h c)
    (harc : stepsTo N F c < stepsTo N F H) (hne : F % N ≠ c % N) :
    stepsTo N h F < stepsTo N h c := by
  have h4 := Nat.mod_lt F (Nat.pos_of_neZero N)
  simp only [stepsTo_eq] at *
  generalize h % N = h' at *
  generalize c % N = c' at *
  generalize H % N = H' at *
  generalize F % N = F' at *
  split_ifs at * <;> omega

theorem Table.mem_taken {α : Type*} {t : Table N (Option α)} {c : Fin N} :
    c ∈ t.taken ↔ t.get c ≠ none := by
  unfold Table.taken Table.get
  rw [Finset.mem_filter, Fin.ofNat_val_eq_self, Option.isSome_iff_ne_none]
  simp

theorem Table.taken_card_eq_iff {α : Type*} {t : Table N (Option α)} :
    t.taken.card = N ↔ ∀ c, t.get c ≠ none := by
  constructor
  · intro hcard c
    have hall : t.taken = Finset.univ :=
      Finset.eq_univ_of_card _ (by rw [hcard, Fintype.card_fin])
    have hmem : Fin.ofNat N c ∈ t.taken := by
      rw [hall]
      exact Finset.mem_univ _
    rw [Table.mem_taken] at hmem
    rwa [Table.get_congr _ (by simp [Fin.ofNat] : c % N = (Fin.ofNat N c).val % N)]
  · intro hall
    have huniv : t.taken = Finset.univ := by
      ext c
      simp [Table.mem_taken, hall]
    rw [huniv, Finset.card_univ, Fintype.card_fin]

/-! ### Tables without gaps -/

variable {α κ : Type*} {home : α → Nat} {key : α → κ} {t : Table N (Option α)} {c p H : Nat}
  {a : α}

/-- The entries of a table. -/
def Table.entries (t : Table N (Option α)) : Set α :=
  { a | ∃ c, t.get c = some a }

theorem Table.entries_put (hfree : t.get c = none) :
    (t.set c (some a)).entries = insert a t.entries := by
  ext b
  constructor
  · rintro ⟨x, hx⟩
    rw [Table.get_set] at hx
    split at hx
    · exact Or.inl (Option.some.inj hx).symm
    · exact Or.inr ⟨x, hx⟩
  · rintro (rfl | ⟨x, hx⟩)
    · exact ⟨c, Table.get_set_self _ _ _⟩
    · refine ⟨x, ?_⟩
      rw [Table.get_set_of_mod_ne _ _ (by
        intro heq
        rw [Table.get_congr _ heq, hfree] at hx
        exact Option.some_ne_none b hx.symm), hx]

/-- The first free cell from `h` on. -/
theorem Table.exists_first_free (t : Table N (Option α)) (h : Nat) (hfree : ∃ c, t.get c = none) :
    ∃ c, t.get c = none ∧ ∀ x, stepsTo N h x < stepsTo N h c → t.get x ≠ none := by
  have hsome : ∃ d, t.get (h + d) = none := by
    obtain ⟨c, hc⟩ := hfree
    exact ⟨stepsTo N h c, by rw [Table.get_congr _ (add_stepsTo h c), hc]⟩
  refine ⟨h + Nat.find hsome, Nat.find_spec hsome, ?_⟩
  intro x hx hnone
  have hle : stepsTo N h (h + Nat.find hsome) ≤ Nat.find hsome := by
    by_cases hlt : Nat.find hsome < N
    · rw [stepsTo_add hlt]
    · exact Nat.le_trans (Nat.le_of_lt (stepsTo_lt _ _)) (Nat.le_of_not_lt hlt)
  refine Nat.find_min hsome (Nat.lt_of_lt_of_le hx hle) ?_
  rw [Table.get_congr _ (add_stepsTo h x), hnone]

/-- No cell on the way of an entry is free, and no two entries have one key. -/
structure Probed (home : α → Nat) (key : α → κ) (t : Table N (Option α)) : Prop where
  way : ∀ c a, t.get c = some a → ∀ x, stepsTo N (home a) x < stepsTo N (home a) c →
    t.get x ≠ none
  unique : ∀ c c' a a', t.get c = some a → t.get c' = some a' → key a = key a' →
    c % N = c' % N

theorem probed_fill : Probed home key (.fill none : Table N (Option α)) where
  way := by
    intro c a hc
    exact absurd hc.symm (Option.some_ne_none a)
  unique := by
    intro c c' a a' hc
    exact absurd hc.symm (Option.some_ne_none a)

theorem Probed.taken_card (h : Probed home key t) (keys : Finset κ)
    (hkeys : ∀ k, k ∈ keys ↔ ∃ a ∈ t.entries, key a = k) : t.taken.card = keys.card := by
  have hsome : ∀ c ∈ t.taken, (t.get c).isSome := by
    intro c hc
    exact Option.isSome_iff_ne_none.mpr (Table.mem_taken.mp hc)
  refine Finset.card_bij (fun c hc => key ((t.get c).get (hsome c hc))) ?_ ?_ ?_
  · intro c hc
    exact (hkeys _).mpr ⟨_, ⟨c, (Option.some_get _).symm⟩, rfl⟩
  · intro c hc c' hc' heq
    have hmod := h.unique c c' _ _ (Option.some_get (hsome c hc)).symm
      (Option.some_get (hsome c' hc')).symm heq
    rw [Nat.mod_eq_of_lt c.isLt, Nat.mod_eq_of_lt c'.isLt] at hmod
    exact Fin.ext hmod
  · intro k hk
    obtain ⟨a, ⟨c, hc⟩, hak⟩ := (hkeys k).mp hk
    have hcell : t.get (Fin.ofNat N c) = some a := by
      rw [Table.get_congr _ (by simp [Fin.ofNat] : (Fin.ofNat N c).val % N = c % N), hc]
    refine ⟨Fin.ofNat N c, Table.mem_taken.mpr (by rw [hcell]; exact Option.some_ne_none a), ?_⟩
    simp only [hcell, Option.get_some]
    exact hak

/-- An entry with a new key goes into the first free cell of its way. -/
theorem Probed.put (h : Probed home key t)
    (hway : ∀ x, stepsTo N (home a) x < stepsTo N (home a) c → t.get x ≠ none)
    (hnew : ∀ c' a', t.get c' = some a' → key a' ≠ key a) :
    Probed home key (t.set c (some a)) := by
  have htaken : ∀ x, t.get x ≠ none → (t.set c (some a)).get x ≠ none := by
    intro x hx
    rw [Table.get_set]
    split
    · exact Option.some_ne_none a
    · exact hx
  refine ⟨?_, ?_⟩
  · intro c' a' hc' x hx
    rw [Table.get_set] at hc'
    split at hc'
    · rename_i hsame
      obtain rfl := Option.some.inj hc'
      rw [stepsTo_congr rfl hsame] at hx
      exact htaken x (hway x hx)
    · exact htaken x (h.way c' a' hc' x hx)
  · intro c₁ c₂ a₁ a₂ h₁ h₂ hkey
    rw [Table.get_set] at h₁ h₂
    split at h₁ <;> split at h₂
    · rename_i hs₁ hs₂
      rw [hs₁, hs₂]
    · obtain rfl := Option.some.inj h₁
      exact absurd hkey.symm (hnew c₂ a₂ h₂)
    · obtain rfl := Option.some.inj h₂
      exact absurd hkey (hnew c₁ a₁ h₁)
    · exact h.unique c₁ c₂ a₁ a₂ h₁ h₂ hkey

theorem Probed.replace (h : Probed home key t) {a' : α} (hget : t.get c = some a)
    (hhome : home a' = home a) (hkey : key a' = key a) : Probed home key (t.set c (some a')) := by
  -- Every entry of the new table stands for one of the old table in the same cell.
  have hold : ∀ x b, (t.set c (some a')).get x = some b →
      ∃ b', t.get x = some b' ∧ home b = home b' ∧ key b = key b' := by
    intro x b hx
    rw [Table.get_set] at hx
    split at hx
    · rename_i hsame
      obtain rfl := Option.some.inj hx
      exact ⟨a, by rw [Table.get_congr _ hsame, hget], hhome, hkey⟩
    · exact ⟨b, hx, rfl, rfl⟩
  refine ⟨?_, ?_⟩
  · intro x b hx y hy
    obtain ⟨b', hx', hb, -⟩ := hold x b hx
    rw [hb] at hy
    have htaken := h.way x b' hx' y hy
    rw [Table.get_set]
    split
    · exact Option.some_ne_none a'
    · exact htaken
  · intro x y b d hx hy hbd
    obtain ⟨b', hx', -, hb⟩ := hold x b hx
    obtain ⟨d', hy', -, hd⟩ := hold y d hy
    exact h.unique x y b' d' hx' hy' (by rw [← hb, ← hd, hbd])

/-! ### A hole -/

/-- The table has one hole that ways may cross, at `H`, and the walk is at `p`. -/
structure HoleAt (home : α → Nat) (key : α → κ) (t : Table N (Option α)) (H p : Nat) :
    Prop where
  free : t.get H = none
  way : ∀ c a, t.get c = some a → ∀ x, stepsTo N (home a) x < stepsTo N (home a) c →
    t.get x = none → x % N = H % N
  /-- An entry whose way crosses the hole lies between the walk and the hole. -/
  behind : ∀ c a, t.get c = some a → stepsTo N (home a) H < stepsTo N (home a) c →
    stepsTo N p c < stepsTo N p H
  unique : ∀ c c' a a', t.get c = some a → t.get c' = some a' → key a = key a' →
    c % N = c' % N

/-- Everything but cell `p` lies between the cell after `p` and `p`. -/
theorem stepsTo_last {c p : Nat} (hne : c % N ≠ p % N) :
    stepsTo N (p + 1) c < stepsTo N (p + 1) p := by
  have hc := stepsTo_succ hne
  have hlt := stepsTo_lt (N := N) p c
  have hp : stepsTo N (p + 1) p = N - 1 := by
    have hsum : (p + 1 + (N - 1)) % N = p % N := by
      rw [show p + 1 + (N - 1) = p + N by omega, Nat.add_mod_right]
    rw [← stepsTo_congr (a := p + 1) rfl hsum, stepsTo_add (by omega)]
  omega

theorem Probed.takeOut (h : Probed home key t) (c : Nat) :
    HoleAt home key (t.set c none) c (c + 1) := by
  have hold : ∀ x a, (t.set c none).get x = some a → x % N ≠ c % N ∧ t.get x = some a := by
    intro x a hx
    rw [Table.get_set] at hx
    split at hx
    · exact absurd hx.symm (Option.some_ne_none a)
    · rename_i hne
      exact ⟨hne, hx⟩
  refine ⟨Table.get_set_self _ _ _, ?_, ?_, ?_⟩
  · intro x a hx y hy hfree
    rw [Table.get_set] at hfree
    split at hfree
    · rename_i hsame
      exact hsame
    · exact absurd hfree (h.way x a (hold x a hx).2 y hy)
  · intro x a hx _
    exact stepsTo_last (hold x a hx).1
  · intro x y a b hx hy hkey
    exact h.unique x y a b (hold x a hx).2 (hold y b hy).2 hkey

theorem Probed.entries_takeOut (h : Probed home key t) (hc : t.get c = some a) :
    (t.set c none).entries = { b ∈ t.entries | key b ≠ key a } := by
  ext b
  constructor
  · rintro ⟨x, hx⟩
    rw [Table.get_set] at hx
    split at hx
    · exact absurd hx.symm (Option.some_ne_none b)
    · rename_i hne
      exact ⟨⟨x, hx⟩, fun hkey => hne (h.unique x c b a hx hc hkey)⟩
  · rintro ⟨⟨x, hx⟩, hkey⟩
    refine ⟨x, ?_⟩
    rw [Table.get_set_of_mod_ne _ _ (by
      intro heq
      rw [Table.get_congr _ heq, hc] at hx
      exact hkey (by rw [Option.some.inj hx])), hx]

/-- At a free cell the walk is over: no way crosses the hole any more. -/
theorem HoleAt.close (h : HoleAt home key t H p) (hp : t.get p = none) : Probed home key t := by
  refine ⟨?_, h.unique⟩
  intro c a hc x hx hfree
  have hxH := h.way c a hc x hx hfree
  rw [stepsTo_congr rfl hxH] at hx
  have harc := h.behind c a hc hx
  have hne : p % N ≠ c % N := by
    intro heq
    rw [Table.get_congr _ heq, hc] at hp
    exact Option.some_ne_none a hp
  -- The way of `c` crosses the hole and then `p`, which is free as well.
  have hpass := stepsTo_between hx harc hne
  have hpH := h.way c a hc p hpass hp
  rw [stepsTo_congr hpH rfl, stepsTo_congr hpH rfl] at harc
  rw [stepsTo_self] at harc
  omega

/-- The walk meets an entry whose way does not cross the hole: it stays. -/
theorem HoleAt.stay (h : HoleAt home key t H p) (hp : t.get p = some a)
    (hpass : ¬ stepsTo N (home a) H < stepsTo N (home a) p) : HoleAt home key t H (p + 1) := by
  refine ⟨h.free, h.way, ?_, h.unique⟩
  intro c b hc hcross
  have harc := h.behind c b hc hcross
  have hcp : c % N ≠ p % N := by
    intro heq
    have hab : some a = some b := by rw [← hp, ← hc, Table.get_congr _ heq]
    obtain rfl := Option.some.inj hab
    rw [stepsTo_congr rfl heq] at hcross
    exact hpass hcross
  have hHp : H % N ≠ p % N := by
    intro heq
    have hfree := h.free
    rw [Table.get_congr _ heq, hp] at hfree
    exact Option.some_ne_none a hfree
  have h1 := stepsTo_succ hcp
  have h2 := stepsTo_succ hHp
  omega

theorem Table.some_of_move (hHp : H % N ≠ p % N) {x : Nat} {b : α}
    (hx : ((t.set p none).set H (some a)).get x = some b) :
    x % N ≠ p % N ∧ (x % N = H % N ∧ b = a ∨ t.get x = some b) := by
  rw [Table.get_set, Table.get_set] at hx
  split at hx
  · rename_i hsame
    exact ⟨by rw [hsame]; exact hHp, Or.inl ⟨hsame, (Option.some.inj hx).symm⟩⟩
  · split at hx
    · exact absurd hx.symm (Option.some_ne_none b)
    · rename_i hne
      exact ⟨hne, Or.inr hx⟩

theorem Table.none_of_move {x : Nat} (hx : ((t.set p none).set H (some a)).get x = none) :
    x % N ≠ H % N ∧ (x % N = p % N ∨ t.get x = none) := by
  rw [Table.get_set, Table.get_set] at hx
  split at hx
  · exact absurd hx (Option.some_ne_none a)
  · rename_i hne
    split at hx
    · rename_i hsame
      exact ⟨hne, Or.inl hsame⟩
    · exact ⟨hne, Or.inr hx⟩

/-- The walk meets an entry whose way crosses the hole: it moves there, and leaves a
hole where it was. -/
theorem HoleAt.move (h : HoleAt home key t H p) (hp : t.get p = some a)
    (hpass : stepsTo N (home a) H < stepsTo N (home a) p) :
    HoleAt home key ((t.set p none).set H (some a)) p (p + 1) := by
  have hHp : H % N ≠ p % N := by
    intro heq
    rw [stepsTo_congr rfl heq] at hpass
    exact Nat.lt_irrefl _ hpass
  refine ⟨?_, ?_, ?_, ?_⟩
  · rw [Table.get_set_of_mod_ne _ _ (Ne.symm hHp), Table.get_set_self]
  · intro c b hc x hx hxfree
    obtain ⟨hxH, hxp | hxold⟩ := Table.none_of_move hxfree
    · exact hxp
    · obtain ⟨-, ⟨hcH, rfl⟩ | hcold⟩ := Table.some_of_move hHp hc
      · rw [stepsTo_congr rfl hcH] at hx
        exact absurd (h.way p b hp x (Nat.lt_trans hx hpass) hxold) hxH
      · exact absurd (h.way c b hcold x hx hxold) hxH
  · intro c b hc _
    exact stepsTo_last (Table.some_of_move hHp hc).1
  · intro c c' b b' hc hc' hkey
    obtain ⟨hcp, ⟨hcH, rfl⟩ | hcold⟩ := Table.some_of_move hHp hc <;>
      obtain ⟨hcp', ⟨hcH', rfl⟩ | hcold'⟩ := Table.some_of_move hHp hc'
    · rw [hcH, hcH']
    · exact absurd (h.unique p c' b b' hp hcold' hkey).symm hcp'
    · exact absurd (h.unique c p b b' hcold hp hkey) hcp
    · exact h.unique c c' b b' hcold hcold' hkey

/-- A move changes no entry. -/
theorem Table.entries_move (hH : t.get H = none) (hp : t.get p = some a) :
    ((t.set p none).set H (some a)).entries = t.entries := by
  ext b
  constructor
  · rintro ⟨x, hx⟩
    rw [Table.get_set, Table.get_set] at hx
    split at hx
    · exact ⟨p, by rw [hp, hx]⟩
    · split at hx
      · exact absurd hx.symm (Option.some_ne_none b)
      · exact ⟨x, hx⟩
  · rintro ⟨x, hx⟩
    by_cases hxp : x % N = p % N
    · refine ⟨H, ?_⟩
      rw [Table.get_set_self, ← hp, ← Table.get_congr _ hxp, hx]
    · have hxH : x % N ≠ H % N := by
        intro heq
        rw [Table.get_congr _ heq, hH] at hx
        exact Option.some_ne_none b hx.symm
      exact ⟨x, by rw [Table.get_set_of_mod_ne _ _ hxH, Table.get_set_of_mod_ne _ _ hxp, hx]⟩

/-! ### Where the entry under the walk goes

Taken out, it is inserted again: the first free cell of its way is the hole if the way
crosses it, and its old cell otherwise. -/

theorem HoleAt.other (h : HoleAt home key t H p) (hp : t.get p = some a) {x : Nat}
    (hx : t.get x ≠ none) (hne : x % N ≠ p % N) :
    ∃ b, (t.set p none).get x = some b ∧ key b ≠ key a := by
  obtain ⟨b, hb⟩ := Option.ne_none_iff_exists'.mp hx
  refine ⟨b, by rw [Table.get_set_of_mod_ne _ _ hne, hb], ?_⟩
  intro hkey
  exact hne (h.unique x p b a hb hp hkey)

theorem HoleAt.before (h : HoleAt home key t H p) (hp : t.get p = some a) {x : Nat}
    (hx : stepsTo N (home a) x < stepsTo N (home a) p)
    (hne : stepsTo N (home a) x ≠ stepsTo N (home a) H) :
    ∃ b, (t.set p none).get x = some b ∧ key b ≠ key a := by
  refine h.other hp ?_ ?_
  · intro hfree
    exact hne (stepsTo_congr rfl (h.way p a hp x hx hfree))
  · intro heq
    rw [stepsTo_congr rfl heq] at hx
    exact Nat.lt_irrefl _ hx

/-! ### The walk ends

An entry that moves comes nearer to its home, so the sum of all distances bounds the
moves; between two moves the walk comes nearer to the hole. -/

/-- How far the content of cell `c` is from its home. -/
def away (home : α → Nat) (c : Fin N) : Option α → Nat
  | none => 0
  | some a => stepsTo N (home a) c

/-- How far all entries together are from their homes. -/
def displacement (home : α → Nat) (t : Table N (Option α)) : Nat :=
  ∑ c, away home c (t.cells c)

theorem displacement_set (home : α → Nat) (t : Table N (Option α)) (k : Nat) (o : Option α) :
    displacement home (t.set k o) + away home (Fin.ofNat N k) (t.get k)
      = displacement home t + away home (Fin.ofNat N k) o := by
  unfold displacement
  have hmem : Fin.ofNat N k ∈ (Finset.univ : Finset (Fin N)) := Finset.mem_univ _
  have hrest : ∑ c ∈ Finset.univ.erase (Fin.ofNat N k), away home c ((t.set k o).cells c)
      = ∑ c ∈ Finset.univ.erase (Fin.ofNat N k), away home c (t.cells c) := by
    refine Finset.sum_congr rfl fun c hc => ?_
    have hcell : (t.set k o).cells c = t.cells c :=
      Function.update_of_ne (Finset.mem_erase.mp hc).1 _ _
    rw [hcell]
  rw [← Finset.add_sum_erase _ _ hmem, ← Finset.add_sum_erase _ (fun c => away home c (t.cells c))
    hmem, hrest]
  simp only [Table.set, Function.update_self, Table.get]
  omega

theorem displacement_le (home : α → Nat) (t : Table N (Option α)) :
    displacement home t ≤ N * (N - 1) := by
  have hcell : ∀ c ∈ (Finset.univ : Finset (Fin N)), away home c (t.cells c) ≤ N - 1 := by
    intro c _
    unfold away
    split
    · exact Nat.zero_le _
    · rename_i a _
      have hlt := stepsTo_lt (N := N) (home a) c
      omega
  have hsum := Finset.sum_le_card_nsmul _ _ _ hcell
  rwa [Finset.card_univ, Fintype.card_fin, smul_eq_mul] at hsum

/-- What the walk at `p` has left, with the hole at `H`. -/
def walkLeft (home : α → Nat) (t : Table N (Option α)) (H p : Nat) : Nat :=
  displacement home t * N + stepsTo N p H

theorem walkLeft_stay (hne : H % N ≠ p % N) :
    walkLeft home t H (p + 1) < walkLeft home t H p := by
  have hsucc := stepsTo_succ hne
  unfold walkLeft
  omega

theorem walkLeft_move (hp : t.get p = some a) (hH : t.get H = none)
    (hpass : stepsTo N (home a) H < stepsTo N (home a) p) :
    walkLeft home ((t.set p none).set H (some a)) p (p + 1) < walkLeft home t H p := by
  have hHp : H % N ≠ p % N := by
    intro heq
    rw [stepsTo_congr rfl heq] at hpass
    exact Nat.lt_irrefl _ hpass
  have hcell : ∀ k, away home (Fin.ofNat N k) (some a) = stepsTo N (home a) k := by
    intro k
    exact stepsTo_congr rfl (by simp [Fin.ofNat])
  have hout := displacement_set home t p none
  have hin := displacement_set home (t.set p none) H (some a)
  rw [hp, hcell] at hout
  rw [Table.get_set_of_mod_ne _ _ hHp, hH, hcell] at hin
  have hdrop : displacement home ((t.set p none).set H (some a)) + 1 ≤ displacement home t := by
    simp only [away] at hout hin
    omega
  have hlt := stepsTo_lt (N := N) (p + 1) p
  have hmul := Nat.mul_le_mul_right N hdrop
  rw [Nat.add_mul, Nat.one_mul] at hmul
  unfold walkLeft
  omega

theorem walkLeft_lt (home : α → Nat) (t : Table N (Option α)) (H p : Nat) :
    walkLeft home t H p < N * N * N := by
  have hle := Nat.mul_le_mul_right N (displacement_le home t)
  have hlt := stepsTo_lt (N := N) p H
  have hN : N * (N - 1) * N + N ≤ N * N * N := by
    rw [show N * (N - 1) * N + N = (N * (N - 1) + 1) * N by rw [Nat.add_mul, Nat.one_mul]]
    refine Nat.mul_le_mul_right N ?_
    have hpos := Nat.pos_of_neZero N
    calc N * (N - 1) + 1 ≤ N * (N - 1) + N := by omega
      _ = N * (N - 1 + 1) := by rw [Nat.mul_add, Nat.mul_one]
      _ = N * N := by rw [Nat.sub_add_cancel hpos]
  unfold walkLeft
  omega

end Lib
