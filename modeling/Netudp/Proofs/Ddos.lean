/-
How the severity rises and falls.

The monitor has one timer for cooling off, which some evaluations advance, some reset and
some leave alone.  Against the evaluations made so far it is easily said what it counts:
those at the end of the list that were quiet and left the level as it was.  That is so
while the level is `None` as well, where the timer runs on and on and nothing comes of it,
because the evaluation that leaves `None` resets it.
-/
import Mathlib.Tactic.Linarith
import Netudp.Connection.Ddos
import Netudp.Proofs.Buffer

namespace Netudp

open Lib

/-! ### Severities -/

namespace DdosSeverity

/-- The level of a number of bad packets. -/
def ofBadPackets (bad : Int) : DdosSeverity := DdosMonitor.newSeverity .none bad

theorem lt_irrefl (a : DdosSeverity) : ¬a < a := Nat.lt_irrefl a.toNat

theorem eq_none_of_not_lt {a : DdosSeverity} (h : ¬none < a) : none = a := by
  cases a with
  | none => rfl
  | low => exact absurd (by decide) h
  | medium => exact absurd (by decide) h
  | high => exact absurd (by decide) h
  | critical => exact absurd (by decide) h

theorem lt_asymm {a b : DdosSeverity} (h : a < b) : ¬b < a := Nat.lt_asymm h

theorem toNat_lower {a : DdosSeverity} (h : a ≠ none) : a.lower.toNat + 1 = a.toNat := by
  cases a with
  | none => exact absurd rfl h
  | low => rfl
  | medium => rfl
  | high => rfl
  | critical => rfl

theorem lower_lt {a : DdosSeverity} (h : a ≠ none) : a.lower < a := by
  have := toNat_lower h
  show a.lower.toNat < a.toNat
  omega

theorem ofBadPackets_of_quiet {bad : Int} (h : bad ≤ 100) : ofBadPackets bad = none := by
  simp only [ofBadPackets, DdosMonitor.newSeverity]
  rw [if_neg (by omega), if_neg (by omega), if_neg (by omega), if_neg (by omega)]

theorem not_lt_of_quiet (a : DdosSeverity) {bad : Int} (h : bad ≤ 100) :
    ¬a < ofBadPackets bad := by
  rw [ofBadPackets_of_quiet h]
  exact Nat.not_lt_zero _

end DdosSeverity

namespace DdosMonitor

theorem newSeverity_of_quiet (severity : DdosSeverity) {bad : Int} (h : bad ≤ 100) :
    newSeverity severity bad = severity := by
  simp only [newSeverity]
  rw [if_neg (by omega), if_neg (by omega), if_neg (by omega), if_neg (by omega)]

/-- Above 100 the present level plays no part. -/
theorem newSeverity_of_noisy (severity : DdosSeverity) {bad : Int} (h : 100 < bad) :
    newSeverity severity bad = .ofBadPackets bad := by
  simp only [DdosSeverity.ofBadPackets, newSeverity, if_pos h]

/-! ### Evaluations -/

/-- An evaluation, with the level before and after it. -/
structure Evaluation where
  /-- The calls of `on_bad_packet` since the evaluation before. -/
  calls : Nat
  before : DdosSeverity
  after : DdosSeverity
deriving DecidableEq

/-- The bad packets of the window, as an `int` counts them. -/
def Evaluation.badPackets (e : Evaluation) : Int := wrap32 e.calls

/-- The window was quiet and the level stayed as it was. -/
def Evaluation.calm (e : Evaluation) : Bool := e.badPackets ≤ 100 && e.after = e.before

/-- The calls of the monitor. -/
inductive Call where
  | onBadPacket
  | update (dt : Time)

/-- The monitor with what has happened to it. -/
structure Watched where
  monitor : DdosMonitor := {}
  /-- The calls of `on_bad_packet` since the last evaluation. -/
  calls : Nat := 0
  /-- The evaluations, the last one first. -/
  evaluations : List Evaluation := []

/-- The monitor after a call. -/
def watch (w : Watched) : Call → Watched
  | .onBadPacket => { w with monitor := w.monitor.onBadPacket, calls := w.calls + 1 }
  | .update dt =>
    let monitor := w.monitor.update dt
    if w.monitor.evaluates dt then
      { monitor := monitor
        calls := 0
        evaluations := ⟨w.calls, w.monitor.severity, monitor.severity⟩ :: w.evaluations }
    else { w with monitor := monitor }

/-- The level after the evaluations, the last one first. -/
def levelAfter : List Evaluation → DdosSeverity
  | [] => .none
  | e :: _ => e.after

/-- The most recent evaluations, as many as the level before `e` asks for and `e` one of
them, were all quiet, and the earlier ones among them left the level as it was. -/
def CooledOff (e : Evaluation) (earlier : List Evaluation) : Prop :=
  cooloffThreshold e.before ≤ earlier.length + 1 ∧ e.badPackets ≤ 100 ∧
    ∀ x ∈ earlier.take (cooloffThreshold e.before - 1),
      x.badPackets ≤ 100 ∧ x.after = x.before

/-- What an evaluation does, given the earlier ones. -/
structure Lawful (e : Evaluation) (earlier : List Evaluation) : Prop where
  before : e.before = levelAfter earlier
  raises : e.before < .ofBadPackets e.badPackets → e.after = .ofBadPackets e.badPackets
  raisesOnly : e.before < e.after → e.before < .ofBadPackets e.badPackets
  one : e.before.toNat ≤ e.after.toNat + 1
  lowers : e.after < e.before ↔ e.before ≠ .none ∧ CooledOff e earlier

/-! ### What the timer counts -/

/-- The evaluations at the head of the list that were calm. -/
def calmRun (evaluations : List Evaluation) : Nat :=
  (evaluations.takeWhile Evaluation.calm).length

theorem calmRun_cons_calm {e : Evaluation} (h : e.calm = true) (earlier : List Evaluation) :
    calmRun (e :: earlier) = calmRun earlier + 1 := by
  rw [calmRun, List.takeWhile_cons_of_pos h, List.length_cons, calmRun]

theorem calmRun_cons_not_calm {e : Evaluation} (h : e.calm = false) (earlier : List Evaluation) :
    calmRun (e :: earlier) = 0 := by
  rw [calmRun, List.takeWhile_cons_of_neg (by rw [h]; exact Bool.false_ne_true), List.length_nil]

/-- So many calm evaluations in a row. -/
theorem le_calmRun_iff (n : Nat) (evaluations : List Evaluation) :
    n ≤ calmRun evaluations ↔
      n ≤ evaluations.length ∧ ∀ x ∈ evaluations.take n, x.calm = true := by
  induction evaluations generalizing n with
  | nil => simp [calmRun]
  | cons e earlier ih =>
    cases n with
    | zero => simp
    | succ n =>
      rw [List.length_cons, List.take_succ_cons, List.forall_mem_cons]
      cases hcalm : e.calm with
      | false => simp [calmRun_cons_not_calm hcalm]
      | true =>
        rw [calmRun_cons_calm hcalm, Nat.add_le_add_iff_right, Nat.add_le_add_iff_right, ih]
        simp

theorem calm_iff (e : Evaluation) :
    e.calm = true ↔ e.badPackets ≤ 100 ∧ e.after = e.before := by
  simp [Evaluation.calm]

theorem cooloffThreshold_pos (severity : DdosSeverity) : 0 < cooloffThreshold severity := by
  rw [cooloffThreshold]
  split
  · decide
  · decide

theorem cooledOff_iff (e : Evaluation) (earlier : List Evaluation) :
    CooledOff e earlier ↔
      e.badPackets ≤ 100 ∧ cooloffThreshold e.before ≤ calmRun earlier + 1 := by
  have hrun := le_calmRun_iff (cooloffThreshold e.before - 1) earlier
  simp only [calm_iff] at hrun
  simp only [CooledOff]
  constructor
  · intro ⟨hlen, hquiet, hcalm⟩
    have := hrun.mpr ⟨by omega, hcalm⟩
    exact ⟨hquiet, by omega⟩
  · intro ⟨hquiet, hle⟩
    obtain ⟨hlen, hcalm⟩ := hrun.mp (by omega)
    exact ⟨by omega, hquiet, hcalm⟩

/-! ### One evaluation -/

/-- What an evaluation can come to, for a timer that stands at `timer`. -/
inductive Outcome (before : DdosSeverity) (bad : Int) (timer : Nat) :
    DdosSeverity → Nat → Prop where
  | raised (h : before < .ofBadPackets bad) : Outcome before bad timer (.ofBadPackets bad) 0
  | lowered (hquiet : bad ≤ 100) (hlong : cooloffThreshold before ≤ timer + 1)
      (habove : before ≠ .none) : Outcome before bad timer before.lower 0
  | waits (hquiet : bad ≤ 100) (h : before ≠ .none → timer + 1 < cooloffThreshold before) :
      Outcome before bad timer before (timer + 1)
  | noisy (hnoisy : 100 < bad) (h : ¬before < .ofBadPackets bad) :
      Outcome before bad timer before 0

theorem evaluate_outcome (m : DdosMonitor) {timer : Nat} (htimer : m.cooloffTimer = timer) :
    ∃ timer' : Nat, m.evaluate.cooloffTimer = timer' ∧
      Outcome m.severity m.badPacketsThisWindow timer m.evaluate.severity timer' := by
  simp only [evaluate]
  by_cases hquiet : m.badPacketsThisWindow ≤ 100
  · rw [newSeverity_of_quiet m.severity hquiet, if_neg (DdosSeverity.lt_irrefl _),
      if_pos hquiet]
    have hcast : (cooloffThreshold m.severity : Time) ≤ m.cooloffTimer + 1 ↔
        cooloffThreshold m.severity ≤ timer + 1 := by
      rw [htimer]
      exact_mod_cast Iff.rfl
    by_cases hlong : cooloffThreshold m.severity ≤ timer + 1
    · rw [if_pos (hcast.mpr hlong)]
      by_cases habove : m.severity = .none
      · rw [if_neg (not_not.mpr habove)]
        refine ⟨timer + 1, ?_, .waits hquiet (absurd habove)⟩
        simp [htimer]
      · rw [if_pos habove]
        exact ⟨0, Nat.cast_zero.symm, .lowered hquiet hlong habove⟩
    · rw [if_neg (mt hcast.mp hlong)]
      refine ⟨timer + 1, ?_, .waits hquiet fun _ => by omega⟩
      simp [htimer]
  · rw [newSeverity_of_noisy m.severity (by omega)]
    by_cases hrise : m.severity < .ofBadPackets m.badPacketsThisWindow
    · rw [if_pos hrise]
      exact ⟨0, Nat.cast_zero.symm, .raised hrise⟩
    · rw [if_neg hrise, if_neg hquiet]
      exact ⟨0, Nat.cast_zero.symm, .noisy (by omega) hrise⟩

theorem Lawful.of_stays {e : Evaluation} {earlier : List Evaluation}
    (hbefore : e.before = levelAfter earlier) (hafter : e.after = e.before)
    (hrise : ¬e.before < .ofBadPackets e.badPackets)
    (hcool : e.before ≠ .none → ¬CooledOff e earlier) : Lawful e earlier where
  before := hbefore
  raises h := absurd h hrise
  raisesOnly h := by
    rw [hafter] at h
    exact absurd h (DdosSeverity.lt_irrefl _)
  one := by
    rw [hafter]
    exact Nat.le_succ _
  lowers := by
    rw [hafter]
    exact ⟨fun h => absurd h (DdosSeverity.lt_irrefl _), fun h => absurd h.2 (hcool h.1)⟩

/-- An outcome is lawful, and the timer goes on counting the calm evaluations. -/
theorem Outcome.lawful {e : Evaluation} {earlier : List Evaluation} {timer : Nat}
    (h : Outcome e.before e.badPackets (calmRun earlier) e.after timer)
    (hbefore : e.before = levelAfter earlier) :
    Lawful e earlier ∧ timer = calmRun (e :: earlier) := by
  generalize hafter : e.after = after at h
  cases h with
  | raised hrise =>
    have hup : e.before < e.after := by
      rw [hafter]
      exact hrise
    have hnoisy : ¬e.badPackets ≤ 100 := fun hquiet => DdosSeverity.not_lt_of_quiet _ hquiet hrise
    refine ⟨⟨hbefore, fun _ => hafter, fun _ => hrise, Nat.le_succ_of_le (Nat.le_of_lt hup), ?_⟩,
      ?_⟩
    · exact ⟨fun hdown => absurd hdown (DdosSeverity.lt_asymm hup),
        fun hcooled => absurd hcooled.2.2.1 hnoisy⟩
    · rw [calmRun_cons_not_calm (by simp [Evaluation.calm, hnoisy])]
  | lowered hquiet hlong habove =>
    have hdown : e.after < e.before := by
      rw [hafter]
      exact DdosSeverity.lower_lt habove
    have hone : e.before.toNat ≤ e.after.toNat + 1 := by
      rw [hafter, DdosSeverity.toNat_lower habove]
    refine ⟨⟨hbefore, fun hrise => absurd hrise (DdosSeverity.not_lt_of_quiet _ hquiet),
      fun hup => absurd hup (DdosSeverity.lt_asymm hdown), hone, ?_⟩, ?_⟩
    · rw [cooledOff_iff]
      exact ⟨fun _ => ⟨habove, hquiet, hlong⟩, fun _ => hdown⟩
    · have hmoved : e.after ≠ e.before := by
        intro heq
        rw [heq] at hdown
        exact DdosSeverity.lt_irrefl _ hdown
      rw [calmRun_cons_not_calm (by simp [Evaluation.calm, hmoved])]
  | waits hquiet hwait =>
    refine ⟨.of_stays hbefore hafter (DdosSeverity.not_lt_of_quiet _ hquiet) ?_, ?_⟩
    · intro habove hcooled
      have hlong := ((cooledOff_iff e earlier).mp hcooled).2
      have hshort := hwait habove
      omega
    · rw [calmRun_cons_calm ((calm_iff e).mpr ⟨hquiet, hafter⟩)]
  | noisy hnoisy hlevel =>
    have hloud : ¬e.badPackets ≤ 100 := by omega
    refine ⟨.of_stays hbefore hafter hlevel fun _ hcooled => hloud hcooled.2.1, ?_⟩
    rw [calmRun_cons_not_calm (by simp [Evaluation.calm, hloud])]

/-! ### Runs -/

/-- The fields of the monitor in terms of what has happened to it. -/
structure Accounted (w : Watched) : Prop where
  window : w.monitor.badPacketsThisWindow = wrap32 w.calls
  level : w.monitor.severity = levelAfter w.evaluations
  timer : w.monitor.cooloffTimer = calmRun w.evaluations
  lawful : ∀ newer e earlier, w.evaluations = newer ++ e :: earlier → Lawful e earlier

theorem accounted_start : Accounted {} where
  window := rfl
  level := rfl
  timer := rfl
  lawful newer e earlier h := absurd h.symm (List.append_ne_nil_of_right_ne_nil _ (by simp))

theorem update_of_not_evaluates {m : DdosMonitor} {dt : Time} (h : m.evaluates dt = false) :
    m.update dt = { m with timeSinceLastEval := m.timeSinceLastEval + dt } := by
  simp [update, h]

theorem update_of_evaluates {m : DdosMonitor} {dt : Time} (h : m.evaluates dt = true) :
    m.update dt = { m with timeSinceLastEval := m.timeSinceLastEval + dt }.evaluate := by
  simp [update, h]

theorem evaluate_window (m : DdosMonitor) : m.evaluate.badPacketsThisWindow = 0 := by
  simp only [evaluate]
  split_ifs <;> rfl

/-- From `None` the level becomes that of the window. -/
theorem evaluate_severity_of_none {m : DdosMonitor} {timer : Nat}
    (htimer : m.cooloffTimer = timer) (h : m.severity = .none) :
    m.evaluate.severity = .ofBadPackets m.badPacketsThisWindow := by
  obtain ⟨timer', -, hout⟩ := evaluate_outcome m htimer
  rw [h] at hout
  generalize m.evaluate.severity = after at hout ⊢
  cases hout with
  | raised hrise => rfl
  | lowered hquiet hlong habove => exact absurd rfl habove
  | waits hquiet hwait => exact (DdosSeverity.ofBadPackets_of_quiet hquiet).symm
  | noisy hnoisy hlevel => exact DdosSeverity.eq_none_of_not_lt hlevel

theorem wrap32_succ (n : Nat) : wrap32 (wrap32 n + 1) = wrap32 (n + 1 : Nat) := by
  rw [wrap32, wrap32, wrap32, Int.bmod_add_bmod]
  rfl

theorem iterate_onBadPacket (m : DdosMonitor) (h : m.badPacketsThisWindow = 0) (n : Nat) :
    onBadPacket^[n] m = { m with badPacketsThisWindow := wrap32 n } := by
  induction n with
  | zero =>
    rw [Function.iterate_zero, id]
    cases m
    simp_all [wrap32]
  | succ n ih =>
    rw [Function.iterate_succ_apply', ih, onBadPacket, wrap32_succ]

theorem Accounted.watch {w : Watched} (h : Accounted w) (call : Call) :
    Accounted (watch w call) := by
  cases call with
  | onBadPacket =>
    refine ⟨?_, h.level, h.timer, h.lawful⟩
    show wrap32 (w.monitor.badPacketsThisWindow + 1) = wrap32 (w.calls + 1 : Nat)
    rw [h.window, wrap32_succ]
  | update dt =>
    simp only [DdosMonitor.watch]
    cases hev : w.monitor.evaluates dt with
    | false =>
      rw [if_neg Bool.false_ne_true, update_of_not_evaluates hev]
      exact ⟨h.window, h.level, h.timer, h.lawful⟩
    | true =>
      rw [if_pos rfl, update_of_evaluates hev]
      generalize hm : { w.monitor with
        timeSinceLastEval := w.monitor.timeSinceLastEval + dt } = m
      have hsev : m.severity = w.monitor.severity := by rw [← hm]
      have hwin : m.badPacketsThisWindow = wrap32 w.calls := by rw [← hm, ← h.window]
      have htime : m.cooloffTimer = calmRun w.evaluations := by rw [← hm, ← h.timer]
      obtain ⟨timer', htimer', hout⟩ := evaluate_outcome m htime
      rw [hsev, hwin] at hout
      have ⟨hlaw, hrun⟩ := hout.lawful (e := ⟨w.calls, w.monitor.severity, m.evaluate.severity⟩)
        h.level
      refine ⟨by simp [evaluate_window, wrap32], rfl, by rw [htimer', hrun], ?_⟩
      intro newer e earlier hsplit
      cases newer with
      | nil =>
        obtain ⟨rfl, rfl⟩ := List.cons.inj hsplit
        exact hlaw
      | cons x newer => exact h.lawful newer e earlier (List.cons.inj hsplit).2

/-- **Up at once, down by one level after a quiet time.**  Whatever calls were made, each
evaluation, with the earlier ones from the last to the first: the level it finds is the
one the evaluation before it left; it raises the level to that of the bad packets it has
counted if that one is higher, and raises it only then; it lowers it by no more than one;
and it lowers it exactly if the level is above `None` and has cooled off. -/
theorem severity_law (calls : List Call) {newer earlier : List Evaluation} {e : Evaluation}
    (h : (run watch {} calls).evaluations = newer ++ e :: earlier) :
    e.before = levelAfter earlier ∧
    (e.before < .ofBadPackets e.badPackets → e.after = .ofBadPackets e.badPackets) ∧
    (e.before < e.after → e.before < .ofBadPackets e.badPackets) ∧
    e.before.toNat ≤ e.after.toNat + 1 ∧
    (e.after < e.before ↔ e.before ≠ .none ∧ CooledOff e earlier) ∧
    (run watch {} calls).monitor.severity = levelAfter (newer ++ e :: earlier) := by
  have hacc : Accounted (run watch {} calls) :=
    run_invariant' Accounted (fun _ call hw => hw.watch call) calls accounted_start
  have hlaw := hacc.lawful newer e earlier h
  exact ⟨hlaw.before, hlaw.raises, hlaw.raisesOnly, hlaw.one, hlaw.lowers, by rw [← h, hacc.level]⟩

/-- A second with 101 bad packets, and thirty without any. -/
def floodThenQuiet : List Call :=
  List.replicate 101 .onBadPacket ++ List.replicate 31 (.update 1)

/-- The last of the thirty lowers the level again. -/
theorem flood_then_quiet :
    let e : Evaluation := ⟨0, .low, .none⟩
    let earlier := List.replicate 29 ⟨0, .low, .low⟩ ++ [⟨101, .none, .low⟩]
    (run watch {} floodThenQuiet).evaluations = e :: earlier ∧
      (e.after < e.before ↔ e.before ≠ .none ∧ CooledOff e earlier) := by
  intro e earlier
  have hrun : (run watch {} floodThenQuiet).evaluations = [] ++ e :: earlier := by
    decide +kernel
  exact ⟨hrun, (severity_law floodThenQuiet hrun).2.2.2.2.1⟩

end DdosMonitor

end Netudp
