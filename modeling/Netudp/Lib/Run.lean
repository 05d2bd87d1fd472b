/-
Runs of a step function.

A deterministic system is a step function `σ → ε → σ`; a run is the fold of its
events.  `Along P` says every event of a run meets `P` in the state it is taken
from, which is how an assumption about the environment is put on a whole run, and
`run_invariant` is the one induction every invariant in the development uses.
-/
import Mathlib.Data.List.Basic

namespace Lib

variable {σ ε : Type*}

/-- The state after the events, oldest first. -/
def run (step : σ → ε → σ) (s : σ) (es : List ε) : σ :=
  es.foldl step s

@[simp] theorem run_nil (step : σ → ε → σ) (s : σ) : run step s [] = s := rfl

@[simp] theorem run_cons (step : σ → ε → σ) (s : σ) (e : ε) (es : List ε) :
    run step s (e :: es) = run step (step s e) es := rfl

theorem run_append (step : σ → ε → σ) (s : σ) (es fs : List ε) :
    run step s (es ++ fs) = run step (run step s es) fs :=
  List.foldl_append

theorem run_collect {α : Type*} (f : ε → α) (before : List α) (es : List ε) :
    run (fun before e => before ++ [f e]) before es = before ++ es.map f := by
  induction es generalizing before with
  | nil => rw [run_nil, List.map_nil, List.append_nil]
  | cons e es ih => rw [run_cons, ih, List.map_cons, ← List.append_cons]

/-- The run whose state is the list of events so far. -/
theorem run_history (before es : List ε) :
    run (fun before e => before ++ [e]) before es = before ++ es := by
  have h := run_collect id before es
  rwa [List.map_id] at h

/-- The events `es`, `n` times over. -/
def rounds (n : Nat) (es : List ε) : List ε :=
  (List.replicate n es).flatten

theorem rounds_succ (n : Nat) (es : List ε) : rounds (n + 1) es = rounds n es ++ es := by
  unfold rounds
  rw [List.replicate_succ', List.flatten_append, List.flatten_singleton]

/-- Every event meets `P` in the state it is taken from. -/
def Along (step : σ → ε → σ) (P : σ → ε → Prop) : σ → List ε → Prop
  | _, [] => True
  | s, e :: es => P s e ∧ Along step P (step s e) es

instance instDecidableAlong {step : σ → ε → σ} {P : σ → ε → Prop} [∀ s e, Decidable (P s e)] :
    ∀ (s : σ) (es : List ε), Decidable (Along step P s es)
  | _, [] => isTrue trivial
  | s, e :: es =>
    have := @instDecidableAlong step P _ (step s e) es
    inferInstanceAs (Decidable (_ ∧ _))

theorem along_append {step : σ → ε → σ} {P : σ → ε → Prop} :
    ∀ {s : σ} {es fs : List ε},
      Along step P s (es ++ fs) ↔ Along step P s es ∧ Along step P (run step s es) fs := by
  intro s es
  induction es generalizing s with
  | nil => intro fs; simp [Along]
  | cons e es ih =>
    intro fs
    simp only [List.cons_append, Along, run_cons, and_assoc, ih]

/-- Each event in turn, with the state the events before it lead to. -/
theorem along_of_split {step : σ → ε → σ} {P : σ → ε → Prop} {s : σ} {es : List ε}
    (h : ∀ pre e post, es = pre ++ e :: post → P (run step s pre) e) : Along step P s es := by
  induction es generalizing s with
  | nil => exact trivial
  | cons e es ih =>
    refine ⟨h [] e es rfl, ih ?_⟩
    intro pre x post hes
    exact h (e :: pre) x post (by rw [hes, List.cons_append])

theorem along_and {step : σ → ε → σ} {P Q : σ → ε → Prop} :
    ∀ {s : σ} {es : List ε},
      Along step (fun s e => P s e ∧ Q s e) s es ↔ Along step P s es ∧ Along step Q s es := by
  intro s es
  induction es generalizing s with
  | nil => simp [Along]
  | cons e es ih =>
    simp only [Along, ih]
    tauto

/-- A condition on the events alone holds along a run when each event meets it. -/
theorem along_of_forall {step : σ → ε → σ} {P : ε → Prop} :
    ∀ {s : σ} {es : List ε}, (∀ e ∈ es, P e) → Along step (fun _ e => P e) s es := by
  intro s es
  induction es generalizing s with
  | nil => intro _; exact trivial
  | cons e es ih =>
    intro h
    exact ⟨h e List.mem_cons_self, ih fun x hx => h x (List.mem_cons_of_mem _ hx)⟩

/-- **What every allowed step keeps, every allowed run keeps.** -/
theorem run_invariant {step : σ → ε → σ} {P : σ → ε → Prop} (Inv : σ → Prop)
    (hstep : ∀ s e, Inv s → P s e → Inv (step s e)) :
    ∀ {s : σ} {es : List ε}, Inv s → Along step P s es → Inv (run step s es) := by
  intro s es
  induction es generalizing s with
  | nil => intro hs _; exact hs
  | cons e es ih =>
    intro hs hal
    exact ih (hstep s e hs hal.1) hal.2

theorem along_of_invariant {step : σ → ε → σ} {P Q : σ → ε → Prop} (Inv : σ → Prop)
    (hstep : ∀ s e, Inv s → P s e → Q s e ∧ Inv (step s e)) :
    ∀ {s : σ} {es : List ε}, Inv s → Along step P s es → Along step Q s es := by
  intro s es
  induction es generalizing s with
  | nil => intro _ _; exact trivial
  | cons e es ih =>
    intro hs hal
    obtain ⟨hq, hnext⟩ := hstep s e hs hal.1
    exact ⟨hq, ih hnext hal.2⟩

/-- The unconditional case: no assumption on the events. -/
theorem run_invariant' {step : σ → ε → σ} (Inv : σ → Prop)
    (hstep : ∀ s e, Inv s → Inv (step s e)) {s : σ} (es : List ε) (hs : Inv s) :
    Inv (run step s es) := by
  induction es generalizing s with
  | nil => exact hs
  | cons e es ih => exact ih (hstep s e hs)

/-- Two machines that stay related over every event are related after every run. -/
theorem run_simulates {τ : Type*} {step : σ → ε → σ} {step' : τ → ε → τ} (R : σ → τ → Prop)
    (hstep : ∀ s t e, R s t → R (step s e) (step' t e)) :
    ∀ {s t} (es : List ε), R s t → R (run step s es) (run step' t es)
  | _, _, [], h => h
  | s, t, e :: es, h => run_simulates R hstep es (hstep s t e h)

theorem run_simulates_along {τ : Type*} {step : σ → ε → σ} {step' : τ → ε → τ}
    {P : σ → ε → Prop} (R : σ → τ → Prop)
    (hstep : ∀ s t e, R s t → P s e → R (step s e) (step' t e)) :
    ∀ {s : σ} {t : τ} {es : List ε}, R s t → Along step P s es →
      R (run step s es) (run step' t es) := by
  intro s t es
  induction es generalizing s t with
  | nil => intro h _; exact h
  | cons e es ih =>
    intro h hal
    exact ih (hstep s t e h hal.1) hal.2

/-- The second list is the first with further events put in, each of which meets `P` in
the state it is taken from. -/
inductive Inserts (step : σ → ε → σ) (P : σ → ε → Prop) : σ → List ε → List ε → Prop
  | nil (s : σ) : Inserts step P s [] []
  | keep {s : σ} (e : ε) {es fs : List ε} (h : Inserts step P (step s e) es fs) :
      Inserts step P s (e :: es) (e :: fs)
  | put {s : σ} {e : ε} (he : P s e) {es fs : List ε} (h : Inserts step P (step s e) es fs) :
      Inserts step P s es (e :: fs)

/-- **The rule for two runs.**  If steps respect a relation and the events put in do not
leave it, the run with them ends related to the run without. -/
theorem run_inserts {step : σ → ε → σ} {P : σ → ε → Prop} (R : σ → σ → Prop)
    (hkeep : ∀ s t e, R s t → R (step s e) (step t e))
    (hput : ∀ s t e, R s t → P s e → R (step s e) t) {s t : σ} {es fs : List ε}
    (h : Inserts step P s es fs) (hst : R s t) : R (run step s fs) (run step t es) := by
  induction h generalizing t with
  | nil s => exact hst
  | keep e h ih => exact ih (hkeep _ _ e hst)
  | put he h ih => exact ih (hput _ _ _ hst he)

end Lib
