/-
Scanning loops.

A parser written as `while (pos < len)` looks at a buffer from its position on, acts on
what it finds there and moves its position, until it reaches the end, leaves the loop or
returns from within it.  `scan` is that loop over any state, with what its rounds do
collected in order; `scan_rule` is the one induction over it.

What such a loop reads can be said exactly: `Tiles` holds of reads each of which begins
where the one before it ended.
-/
import Mathlib.Data.List.Basic

namespace Lib

variable {σ α : Type*}

/-! ### The loop -/

/-- How a round ends: at a new position, with a `break`, or with a `return`. -/
inductive Round (σ : Type*) where
  | next (pos : Nat) (s : σ)
  | leave (s : σ)
  | quit (s : σ)

/-- What a loop has done, the state it leaves, and whether it ended in a `return`. -/
structure Scanned (α σ : Type*) where
  actions : List α
  state : σ
  quit : Bool

/-- `while (pos < len)`.  Each round moves the position, so `len` is fuel enough. -/
def scan (len : Nat) (round : Nat → σ → List α × Round σ) : Nat → Nat → σ → Scanned α σ
  | 0, _, s => ⟨[], s, false⟩
  | fuel + 1, pos, s =>
    if pos < len then
      match round pos s with
      | (actions, .leave s) => ⟨actions, s, false⟩
      | (actions, .quit s) => ⟨actions, s, true⟩
      | (actions, .next pos s) =>
        let rest := scan len round fuel pos s
        ⟨actions ++ rest.actions, rest.state, rest.quit⟩
    else ⟨[], s, false⟩

theorem scan_done {len : Nat} (round : Nat → σ → List α × Round σ) (fuel : Nat) {pos : Nat} (s : σ)
    (h : len ≤ pos) : scan len round fuel pos s = ⟨[], s, false⟩ := by
  cases fuel with
  | zero => rfl
  | succ fuel => rw [scan, if_neg (Nat.not_lt.mpr h)]

/-- **The rule for loops.**  What holds at the end, where a round leaves the loop, and
before a round that moves on if it holds after it, holds of the whole loop. -/
theorem scan_rule {len : Nat} {round : Nat → σ → List α × Round σ}
    (P : Nat → σ → Scanned α σ → Prop)
    (hend : ∀ pos s, len ≤ pos → P pos s ⟨[], s, false⟩)
    (hround : ∀ pos s, pos < len →
      (∃ actions s', round pos s = (actions, .leave s') ∧ P pos s ⟨actions, s', false⟩) ∨
      (∃ actions s', round pos s = (actions, .quit s') ∧ P pos s ⟨actions, s', true⟩) ∨
      ∃ actions pos' s', round pos s = (actions, .next pos' s') ∧ pos < pos' ∧
        ∀ rest, P pos' s' rest → P pos s ⟨actions ++ rest.actions, rest.state, rest.quit⟩) :
    ∀ (fuel pos : Nat) (s : σ), len ≤ pos + fuel → P pos s (scan len round fuel pos s) := by
  intro fuel
  induction fuel with
  | zero =>
    intro pos s hfuel
    exact hend pos s hfuel
  | succ fuel ih =>
    intro pos s hfuel
    rw [scan]
    split
    · rename_i hlt
      rcases hround pos s hlt with ⟨actions, s', heq, h⟩ | ⟨actions, s', heq, h⟩ |
        ⟨actions, pos', s', heq, hmore, h⟩
      · rw [heq]
        exact h
      · rw [heq]
        exact h
      · rw [heq]
        exact h _ (ih pos' s' (by omega))
    · exact hend pos s (by omega)

/-! ### Reads -/

/-- The reads, each a position and a length, cover the bytes from `start` to `stop` one
after another. -/
def Tiles (start : Nat) : List (Nat × Nat) → Nat → Prop
  | [], stop => start = stop
  | (pos, len) :: rest, stop => pos = start ∧ Tiles (start + len) rest stop

theorem tiles_append {start mid stop : Nat} {reads more : List (Nat × Nat)}
    (h : Tiles start reads mid) (h' : Tiles mid more stop) : Tiles start (reads ++ more) stop := by
  induction reads generalizing start with
  | nil =>
    obtain rfl : start = mid := h
    exact h'
  | cons read rest ih =>
    obtain ⟨pos, len⟩ := read
    exact ⟨h.1, ih h.2⟩

theorem Tiles.le {start stop : Nat} {reads : List (Nat × Nat)} (h : Tiles start reads stop) :
    start ≤ stop := by
  induction reads generalizing start with
  | nil => exact Nat.le_of_eq h
  | cons read rest ih =>
    obtain ⟨pos, len⟩ := read
    exact Nat.le_trans (Nat.le_add_right _ _) (ih h.2)

theorem Tiles.within {start stop : Nat} {reads : List (Nat × Nat)} (h : Tiles start reads stop)
    {pos len : Nat} (hmem : (pos, len) ∈ reads) : start ≤ pos ∧ pos + len ≤ stop := by
  induction reads generalizing start with
  | nil => exact absurd hmem List.not_mem_nil
  | cons read rest ih =>
    obtain ⟨pos', len'⟩ := read
    rcases List.mem_cons.mp hmem with hhead | htail
    · obtain ⟨rfl, rfl⟩ := Prod.mk.inj hhead
      have hrest := Tiles.le h.2
      have hstart := h.1
      omega
    · have hrest := ih h.2 htail
      omega

end Lib
