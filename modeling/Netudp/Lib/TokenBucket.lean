/-
A level that refills.

A meter lets events through.  It has a level, which is never above `burst`, rises by at
most `rate` for each unit of time, and falls by one for each event that is let through;
so in any stretch of time no more events get through than the level can have held and
gained.  What the meter is made of does not matter, and neither does what other events do
to it, as long as they do not raise the level.
-/
import Mathlib.Algebra.Order.Field.Basic
import Mathlib.Tactic.Linarith
import Mathlib.Tactic.Ring
import Netudp.Lib.Run

namespace Lib

variable {σ ε R : Type*} [LinearOrder R]

/-- How many of the events from `t₁` to `t₂` the meter lets through. -/
def takenIn (step : σ → ε → σ) (time : ε → R) (taken : σ → ε → Bool) (t₁ t₂ : R) :
    σ → List ε → Nat
  | _, [] => 0
  | s, e :: es =>
    (if t₁ ≤ time e ∧ time e ≤ t₂ ∧ taken s e = true then 1 else 0) +
      takenIn step time taken t₁ t₂ (step s e) es

theorem takenIn_append (step : σ → ε → σ) (time : ε → R) (taken : σ → ε → Bool) (t₁ t₂ : R)
    (es fs : List ε) :
    ∀ s, takenIn step time taken t₁ t₂ s (es ++ fs) =
      takenIn step time taken t₁ t₂ s es + takenIn step time taken t₁ t₂ (run step s es) fs := by
  induction es with
  | nil =>
    intro s
    rw [List.nil_append, takenIn, run_nil, Nat.zero_add]
  | cons e es ih =>
    intro s
    rw [List.cons_append, takenIn, takenIn, ih, run_cons, Nat.add_assoc]

/-- Once an event is past the end of the stretch, so are those after it. -/
theorem takenIn_after {step : σ → ε → σ} {time : ε → R} {taken : σ → ε → Bool} {t₁ t₂ : R}
    {e : ε} {es : List ε} (hordered : (e :: es).Pairwise fun x y => time x ≤ time y)
    (hout : t₂ < time e) (s : σ) : takenIn step time taken t₁ t₂ s (e :: es) = 0 := by
  have hlate : ¬ (t₁ ≤ time e ∧ time e ≤ t₂ ∧ taken s e = true) := fun hin =>
    absurd hin.2.1 (not_le.mpr hout)
  induction es generalizing e s with
  | nil => rw [takenIn, if_neg hlate, takenIn]
  | cons x es ih =>
    rw [List.pairwise_cons] at hordered
    have hx : t₂ < time x := lt_of_lt_of_le hout (hordered.1 x List.mem_cons_self)
    rw [takenIn, if_neg hlate, ih hordered.2 hx _ fun hin => absurd hin.2.1 (not_le.mpr hx)]

/-- A meter: the level of a state at a time, for states that are in order at that time.
`P` is what is asked of the events. -/
structure Meter [Field R] (step : σ → ε → σ) (time : ε → R) (taken : σ → ε → Bool)
    (P : σ → ε → Prop) (rate burst : R) where
  Valid : σ → R → Prop
  level : σ → R → R
  rate_nonneg : 0 ≤ rate
  burst_nonneg : 0 ≤ burst
  later : ∀ {s t t'}, Valid s t → t ≤ t' → Valid s t'
  nonneg : ∀ {s t}, Valid s t → 0 ≤ level s t
  full : ∀ {s t}, Valid s t → level s t ≤ burst
  rises : ∀ {s t t'}, Valid s t → t ≤ t' → level s t' ≤ level s t + rate * (t' - t)
  valid_step : ∀ {s e}, Valid s (time e) → P s e → Valid (step s e) (time e)
  falls : ∀ {s e}, Valid s (time e) → P s e →
    level (step s e) (time e) + (if taken s e = true then 1 else 0) ≤ level s (time e)

namespace Meter

variable [Field R] [IsStrictOrderedRing R] {step : σ → ε → σ} {time : ε → R}
  {taken : σ → ε → Bool} {P : σ → ε → Prop} {rate burst : R}

/-- From a time inside the stretch on, what gets through is what the level holds and what
it gains up to the end. -/
theorem inside (M : Meter step time taken P rate burst) (t₁ : R) {t₂ : R} (es : List ε) :
    ∀ {s : σ} {t : R}, M.Valid s t → t ≤ t₂ → Along step P s es →
      es.Pairwise (fun x y => time x ≤ time y) → (∀ e ∈ es, t ≤ time e) →
      (takenIn step time taken t₁ t₂ s es : R) ≤ M.level s t + rate * (t₂ - t) := by
  induction es with
  | nil =>
    intro s t hvalid ht _ _ _
    have hgain : 0 ≤ rate * (t₂ - t) := mul_nonneg M.rate_nonneg (sub_nonneg.mpr ht)
    rw [takenIn, Nat.cast_zero]
    exact add_nonneg (M.nonneg hvalid) hgain
  | cons e es ih =>
    intro s t hvalid ht hal hordered hafter
    have hte := hafter e List.mem_cons_self
    rcases le_or_gt (time e) t₂ with hin | hout
    · have hsorted := List.pairwise_cons.mp hordered
      have hnow := M.later hvalid hte
      have hrest := ih (M.valid_step hnow hal.1) hin hal.2 hsorted.2 hsorted.1
      have hfalls := M.falls hnow hal.1
      have hrises := M.rises hvalid hte
      have hone : ((if t₁ ≤ time e ∧ time e ≤ t₂ ∧ taken s e = true then 1 else 0 : Nat) : R) ≤
          (if taken s e = true then 1 else 0) := by
        by_cases htaken : taken s e = true
        · rw [if_pos htaken]
          split
          · exact le_of_eq Nat.cast_one
          · rw [Nat.cast_zero]
            exact zero_le_one
        · rw [if_neg htaken, if_neg (fun h => htaken h.2.2), Nat.cast_zero]
      have hsplit : rate * (t₂ - t) = rate * (t₂ - time e) + rate * (time e - t) := by ring
      rw [takenIn, Nat.cast_add, hsplit]
      linarith
    · have hgain : 0 ≤ rate * (t₂ - t) := mul_nonneg M.rate_nonneg (sub_nonneg.mpr ht)
      rw [takenIn_after hordered hout, Nat.cast_zero]
      exact add_nonneg (M.nonneg hvalid) hgain

/-- **In any stretch of time at most `burst` events get through, and `rate` for each unit of
it.** -/
theorem window (M : Meter step time taken P rate burst) {t₁ t₂ : R} (ht : t₁ ≤ t₂) (es : List ε) :
    ∀ {s : σ}, (∀ e ∈ es.head?, M.Valid s (time e)) → Along step P s es →
      es.Pairwise (fun x y => time x ≤ time y) →
      (takenIn step time taken t₁ t₂ s es : R) ≤ burst + rate * (t₂ - t₁) := by
  have hgain : 0 ≤ rate * (t₂ - t₁) := mul_nonneg M.rate_nonneg (sub_nonneg.mpr ht)
  induction es with
  | nil =>
    intro s _ _ _
    rw [takenIn, Nat.cast_zero]
    exact add_nonneg M.burst_nonneg hgain
  | cons e es ih =>
    intro s hvalid hal hordered
    have hnow : M.Valid s (time e) := hvalid e rfl
    have hsorted := List.pairwise_cons.mp hordered
    rcases lt_or_ge (time e) t₁ with hbefore | hin
    · -- The stretch has not begun.
      have hnot : ¬ (t₁ ≤ time e ∧ time e ≤ t₂ ∧ taken s e = true) := fun h =>
        absurd h.1 (not_le.mpr hbefore)
      have hnext : ∀ x ∈ es.head?, M.Valid (step s e) (time x) := by
        intro x hx
        exact M.later (M.valid_step hnow hal.1) (hsorted.1 x (List.mem_of_mem_head? hx))
      rw [takenIn, if_neg hnot, Nat.zero_add]
      exact ih hnext hal.2 hsorted.2
    · rcases le_or_gt (time e) t₂ with hend | hout
      · have hafter : ∀ x ∈ e :: es, time e ≤ time x := by
          intro x hx
          rcases List.mem_cons.mp hx with rfl | hx
          · exact le_refl _
          · exact hsorted.1 x hx
        have hinside := M.inside t₁ (e :: es) hnow hend hal hordered hafter
        have hfull := M.full hnow
        have hless : rate * (t₂ - time e) ≤ rate * (t₂ - t₁) :=
          mul_le_mul_of_nonneg_left (by linarith) M.rate_nonneg
        linarith
      · rw [takenIn_after hordered hout, Nat.cast_zero]
        exact add_nonneg M.burst_nonneg hgain

end Meter

end Lib
