/-
Keys with a use counter.

Each party holds a key and the number of times it has used it; a use is the pair of the
two, which is how a cipher gets a nonce that is never repeated under one key.  A party
may install another key at any time, and its counter then starts again.  If no key is
ever installed twice, by whichever party, no pair is ever used twice.
-/
import Mathlib.Data.List.Nodup
import Netudp.Lib.Run

namespace Lib

variable {ι K : Type*}

/-- The keys held, the pairs used, and the keys ever installed, oldest first. -/
structure Keyring (ι K : Type*) where
  holds : ι → Option (K × Nat)
  used : List (K × Nat)
  installed : List K

/-- What a party does with its key. -/
inductive KeyEvent (ι K : Type*) where
  | install (i : ι) (k : K)
  | use (i : ι)

namespace Keyring

/-- Nobody holds a key. -/
def empty : Keyring ι K := ⟨fun _ => none, [], []⟩

/-- No two parties hold one key, and each is past every use of its own. -/
structure Separate (r : Keyring ι K) : Prop where
  held : ∀ {i k n}, r.holds i = some (k, n) → k ∈ r.installed
  known : ∀ {k n}, (k, n) ∈ r.used → k ∈ r.installed
  apart : ∀ {i j k n m}, r.holds i = some (k, n) → r.holds j = some (k, m) → i = j
  below : ∀ {i k n m}, r.holds i = some (k, n) → (k, m) ∈ r.used → m < n
  nodup : r.used.Nodup

theorem separate_empty : (empty : Keyring ι K).Separate where
  held h := by simp [empty] at h
  known h := by simp [empty] at h
  apart h := by simp [empty] at h
  below h := by simp [empty] at h
  nodup := List.nodup_nil

variable [DecidableEq ι]

/-- A party without a key has no use to make. -/
def step (r : Keyring ι K) : KeyEvent ι K → Keyring ι K
  | .install i k =>
    { r with
      holds := Function.update r.holds i (some (k, 0))
      installed := r.installed ++ [k] }
  | .use i =>
    match r.holds i with
    | none => r
    | some (k, n) =>
      { r with
        holds := Function.update r.holds i (some (k, n + 1))
        used := r.used ++ [(k, n)] }

theorem step_use {r : Keyring ι K} {i : ι} {k : K} {n : Nat} (h : r.holds i = some (k, n)) :
    r.step (.use i) = { r with
      holds := Function.update r.holds i (some (k, n + 1)), used := r.used ++ [(k, n)] } := by
  simp only [step, h]

/-- Who holds a key after the key of `i` has been set. -/
theorem holds_update {f : ι → Option (K × Nat)} {i j : ι} {k k' : K} {n m : Nat}
    (h : Function.update f i (some (k, n)) j = some (k', m)) :
    j = i ∧ k' = k ∧ m = n ∨ j ≠ i ∧ f j = some (k', m) := by
  by_cases hji : j = i
  · subst hji
    rw [Function.update_self, Option.some.injEq, Prod.mk.injEq] at h
    exact Or.inl ⟨rfl, h.1.symm, h.2.symm⟩
  · rw [Function.update_of_ne hji] at h
    exact Or.inr ⟨hji, h⟩

/-- A key that is installed has not been installed before. -/
def InstallsNew (r : Keyring ι K) : KeyEvent ι K → Prop
  | .install _ k => k ∉ r.installed
  | .use _ => True

theorem Separate.install {r : Keyring ι K} (h : r.Separate) (i : ι) {k : K}
    (hnew : k ∉ r.installed) : (r.step (.install i k)).Separate := by
  -- A key that was held or used before had been installed, so it is not the new one.
  have hother : ∀ {j n}, r.holds j ≠ some (k, n) := fun hj => hnew (h.held hj)
  constructor
  · intro j k' n hj
    rcases holds_update hj with ⟨-, rfl, -⟩ | ⟨-, hold⟩
    · simp [step]
    · exact List.mem_append_left _ (h.held hold)
  · intro k' n hu
    exact List.mem_append_left _ (h.known hu)
  · intro j j' k' n m hj hj'
    rcases holds_update hj with ⟨rfl, rfl, -⟩ | ⟨-, hold⟩
    · rcases holds_update hj' with ⟨rfl, -, -⟩ | ⟨-, hold'⟩
      · rfl
      · exact absurd hold' hother
    · rcases holds_update hj' with ⟨-, rfl, -⟩ | ⟨-, hold'⟩
      · exact absurd hold hother
      · exact h.apart hold hold'
  · intro j k' n m hj hu
    rcases holds_update hj with ⟨-, rfl, -⟩ | ⟨-, hold⟩
    · exact absurd (h.known hu) hnew
    · exact h.below hold hu
  · exact h.nodup

theorem Separate.use {r : Keyring ι K} (h : r.Separate) (i : ι) :
    (r.step (.use i)).Separate := by
  cases hi : r.holds i with
  | none => simpa only [step, hi] using h
  | some kn =>
    obtain ⟨k, n⟩ := kn
    rw [step_use hi]
    constructor
    · intro j k' m hj
      rcases holds_update hj with ⟨-, rfl, -⟩ | ⟨-, hold⟩
      · exact h.held hi
      · exact h.held hold
    · intro k' m hu
      rcases List.mem_append.mp hu with hu | hu
      · exact h.known hu
      · obtain ⟨rfl, -⟩ := Prod.mk.inj (List.mem_singleton.mp hu)
        exact h.held hi
    · intro j j' k' m m' hj hj'
      rcases holds_update hj with ⟨rfl, rfl, -⟩ | ⟨-, hold⟩
      · rcases holds_update hj' with ⟨rfl, -, -⟩ | ⟨-, hold'⟩
        · rfl
        · exact h.apart hi hold'
      · rcases holds_update hj' with ⟨rfl, rfl, -⟩ | ⟨-, hold'⟩
        · exact h.apart hold hi
        · exact h.apart hold hold'
    · intro j k' m m' hj hu
      rcases List.mem_append.mp hu with hbefore | hnow
      · rcases holds_update hj with ⟨-, rfl, rfl⟩ | ⟨-, hold⟩
        · exact Nat.lt_succ_of_lt (h.below hi hbefore)
        · exact h.below hold hbefore
      · -- The new pair is of the key of `i`, which nobody else holds.
        obtain ⟨rfl, rfl⟩ := Prod.mk.inj (List.mem_singleton.mp hnow)
        rcases holds_update hj with ⟨-, -, rfl⟩ | ⟨hji, hold⟩
        · exact Nat.lt_succ_self _
        · exact absurd (h.apart hold hi) hji
    · refine List.nodup_append.mpr ⟨h.nodup, List.nodup_singleton _, ?_⟩
      intro a ha b hb
      rw [List.mem_singleton] at hb
      rintro rfl
      subst hb
      exact absurd (h.below hi ha) (Nat.lt_irrefl _)

/-- **With every installed key new, no pair of key and counter is used twice.** -/
theorem used_nodup {es : List (KeyEvent ι K)} (h : Along step InstallsNew empty es) :
    (run step (empty : Keyring ι K) es).used.Nodup := by
  refine (run_invariant Separate ?_ separate_empty h).nodup
  intro r e hr hnew
  cases e with
  | install i k => exact hr.install i hnew
  | use i => exact hr.use i

/-- A counter never exceeds the number of uses. -/
theorem counter_le_uses (es : List (KeyEvent ι K)) {i : ι} {k : K} {n : Nat}
    (h : (run step (empty : Keyring ι K) es).holds i = some (k, n)) :
    n ≤ (run step (empty : Keyring ι K) es).used.length := by
  revert i k n
  refine run_invariant' (fun r : Keyring ι K =>
    ∀ {i k n}, r.holds i = some (k, n) → n ≤ r.used.length) ?_ es (by simp [empty])
  intro r e hr j k n hj
  cases e with
  | install i k' =>
    rcases holds_update hj with ⟨-, -, rfl⟩ | ⟨-, hold⟩
    · exact Nat.zero_le _
    · exact hr hold
  | use i =>
    cases hi : r.holds i with
    | none =>
      simp only [step, hi] at hj ⊢
      exact hr hj
    | some kn =>
      obtain ⟨k', m⟩ := kn
      rw [step_use hi] at hj ⊢
      rw [List.length_append, List.length_singleton]
      rcases holds_update hj with ⟨-, -, rfl⟩ | ⟨-, hold⟩
      · exact Nat.succ_le_succ (hr hi)
      · exact Nat.le_succ_of_le (hr hold)

end Keyring

end Lib
