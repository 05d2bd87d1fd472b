/-
The send budget and the congestion window.

Both are a few counters that every call moves by a step of its own, and both have a range
they are meant to stay in.  The budget is 32 bits wide and converts the bits of a refill
before it clamps them: it stays in its range for as long as what a refill converts and
subtracts does.  The window counts packets and losses up to 64 and takes losses out again
when packets arrive: the losses stay below the packets unless there are 64 of them and one
more comes.
-/
import Mathlib.Algebra.Order.Field.Basic
import Netudp.Proofs.Refills

namespace Netudp

open Lib

/-! ### The send budget -/

namespace QueuedBitsBudget

variable {b : QueuedBitsBudget}

theorem refill_bits_nonneg {dt : Time} (hdt : 0 ≤ dt) (rate : Nat) :
    0 ≤ (rate : ℚ) * 8 * dt ∧ 0 ≤ ((rate : ℚ) * 8 * dt).floor := by
  have hproduct : 0 ≤ (rate : ℚ) * 8 * dt := by positivity
  exact ⟨hproduct, Rat.le_floor_iff.mpr (by simpa using hproduct)⟩

theorem checkedRefill_eq {dt : Time} (hdt : 0 ≤ dt) {rate : Nat} (hfits : b.Fits dt rate) :
    b.checkedRefill dt rate = some (b.refill dt rate) := by
  obtain ⟨hproduct, hfloor⟩ := refill_bits_nonneg hdt rate
  obtain ⟨hbits, hqueued, hsmall⟩ := hfits
  simp only [checkedRefill, refill, if_pos hproduct]
  rw [int32_eq_some (by omega) hbits, Option.bind_eq_bind, Option.bind_some, Option.getD_some,
    int32_eq_some (by omega) (by omega), wrap32_eq (by omega) (by omega)]
  rfl

theorem checkedConsume_eq {bytes : Nat} (hbytes : bytes ≤ 1400) (hlow : -2 ^ 31 ≤ b.queuedBits)
    (hhigh : b.queuedBits ≤ 0) : b.checkedConsume bytes = some (b.consume bytes) := by
  simp only [checkedConsume, consume]
  rw [int32_eq_some (by omega) (by omega), Option.bind_eq_bind, Option.bind_some,
    int32_eq_some (by omega) (by omega)]
  rfl

theorem refill_le {dt : Time} (hdt : 0 ≤ dt) {rate : Nat} (hfits : b.Fits dt rate)
    (hlow : -b.burstBits ≤ b.queuedBits) :
    -b.burstBits ≤ (b.refill dt rate).queuedBits ∧
      (b.refill dt rate).queuedBits ≤ b.queuedBits := by
  obtain ⟨-, hfloor⟩ := refill_bits_nonneg hdt rate
  rw [refill_queuedBits hdt hfits]
  omega

end QueuedBitsBudget

/-- A call on the budget. -/
inductive BudgetCall where
  | refill (deltaTime : Time) (sendRateBps : Nat)
  | consume (packetBytes : Nat)

/-- The budget after the call; none once a result was out of range. -/
def budgetStep (b : Option QueuedBitsBudget) : BudgetCall → Option QueuedBitsBudget
  | .refill dt rate => b.bind fun b => b.checkedRefill dt rate
  | .consume bytes => b.bind fun b => b.checkedConsume bytes

/-- Time goes on, rates have 32 bits, and a packet of at most 1400 bytes is sent when
`can_send` allows it. -/
def AllowedCall (b : Option QueuedBitsBudget) : BudgetCall → Prop
  | .refill dt rate => 0 ≤ dt ∧ rate < 2 ^ 32
  | .consume bytes => bytes ≤ 1400 ∧ ∀ b' ∈ b, b'.canSend = true

/-- What a refill converts is below 2 ^ 31, and no more than can be subtracted. -/
def RefillFits (b : Option QueuedBitsBudget) : BudgetCall → Prop
  | .refill dt rate => ∀ b' ∈ b, ((rate : ℚ) * 8 * dt).floor < 2 ^ 31 ∧
      ((rate : ℚ) * 8 * dt).floor ≤ 2 ^ 31 + b'.queuedBits
  | .consume _ => True

/-- Between the burst and one packet. -/
structure InBudget (b : QueuedBitsBudget) : Prop where
  burst : b.burstBits = 32 * 1024 * 8
  low : -b.burstBits ≤ b.queuedBits
  high : b.queuedBits ≤ 11200

theorem inBudget_refill {b : QueuedBitsBudget} (h : InBudget b) {dt : Time} {rate : Nat}
    (hcall : AllowedCall (some b) (.refill dt rate))
    (hfits : RefillFits (some b) (.refill dt rate)) :
    b.checkedRefill dt rate = some (b.refill dt rate) ∧ InBudget (b.refill dt rate) ∧
      (b.refill dt rate).queuedBits ≤ b.queuedBits := by
  obtain ⟨hbits, hqueued⟩ := hfits b rfl
  have hhigh := h.high
  have hfits : b.Fits dt rate := ⟨hbits, hqueued, by omega⟩
  obtain ⟨hlow, hless⟩ := QueuedBitsBudget.refill_le hcall.1 hfits h.low
  exact ⟨QueuedBitsBudget.checkedRefill_eq hcall.1 hfits, ⟨h.burst, hlow, hless.trans hhigh⟩, hless⟩

theorem inBudget_consume {b : QueuedBitsBudget} (h : InBudget b) {bytes : Nat}
    (hcall : AllowedCall (some b) (.consume bytes)) :
    b.checkedConsume bytes = some (b.consume bytes) ∧ InBudget (b.consume bytes) := by
  obtain ⟨hbytes, hcan⟩ := hcall
  have hqueued : b.queuedBits ≤ 0 := by simpa [QueuedBitsBudget.canSend] using hcan b rfl
  obtain ⟨hburst, hlow, -⟩ := h
  refine ⟨QueuedBitsBudget.checkedConsume_eq hbytes (by omega) hqueued, hburst, ?_, ?_⟩
  · show -b.burstBits ≤ b.queuedBits + bytes * 8
    omega
  · show b.queuedBits + bytes * 8 ≤ 11200
    omega

theorem inBudget_step {o : Option QueuedBitsBudget} {call : BudgetCall}
    (h : ∃ b, o = some b ∧ InBudget b) (hallowed : AllowedCall o call ∧ RefillFits o call) :
    ∃ b, budgetStep o call = some b ∧ InBudget b := by
  obtain ⟨b, rfl, hb⟩ := h
  cases call with
  | refill dt rate =>
    obtain ⟨hsome, hin, -⟩ := inBudget_refill hb hallowed.1 hallowed.2
    refine ⟨b.refill dt rate, ?_, hin⟩
    rw [budgetStep, Option.bind_some, hsome]
  | consume bytes =>
    obtain ⟨hsome, hin⟩ := inBudget_consume hb hallowed.1
    refine ⟨b.consume bytes, ?_, hin⟩
    rw [budgetStep, Option.bind_some, hsome]

/-- **The budget stays in its range** while every refill's product fits: no conversion, sum
or difference leaves the 32 bits, no refill adds to the queued bits, and there are never
more of them than a packet's nor fewer than the burst. -/
theorem budget_stays_in_range (es : List BudgetCall)
    (hallowed : Along budgetStep AllowedCall (some {}) es)
    (hfits : Along budgetStep RefillFits (some {}) es) :
    (∃ b, run budgetStep (some {}) es = some b ∧
      -b.burstBits ≤ b.queuedBits ∧ b.queuedBits ≤ 11200) ∧
    ∀ pre dt rate post, es = pre ++ .refill dt rate :: post →
      ∃ b b', run budgetStep (some {}) pre = some b ∧
        budgetStep (some b) (.refill dt rate) = some b' ∧ b'.queuedBits ≤ b.queuedBits := by
  have hboth := along_and.mpr ⟨hallowed, hfits⟩
  have hrun : ∀ {es}, Along budgetStep (fun o call => AllowedCall o call ∧ RefillFits o call)
      (some {}) es → ∃ b, run budgetStep (some {}) es = some b ∧ InBudget b :=
    fun halong => run_invariant (fun o => ∃ b, o = some b ∧ InBudget b)
      (fun _ _ => inBudget_step) ⟨{}, rfl, rfl, by decide, by decide⟩ halong
  constructor
  · obtain ⟨b, hb, hin⟩ := hrun hboth
    exact ⟨b, hb, hin.low, hin.high⟩
  · intro pre dt rate post hes
    rw [hes, along_append] at hboth
    obtain ⟨b, hb, hin⟩ := hrun hboth.1
    have hhere := hboth.2.1
    rw [hb] at hhere
    obtain ⟨hsome, -, hless⟩ := inBudget_refill hin hhere.1 hhere.2
    refine ⟨b, b.refill dt rate, hb, ?_, hless⟩
    rw [budgetStep, Option.bind_some, hsome]

/-- A packet, a refill for a 16th of a second, and a packet. -/
theorem packets_stay_in_range :
    ∃ b, run budgetStep (some {}) [.consume 1400, .refill (1 / 16) 262144, .consume 1400] =
        some b ∧ b.queuedBits ≤ 11200 := by
  obtain ⟨⟨b, hb, -, hhigh⟩, -⟩ := budget_stays_in_range
    [.consume 1400, .refill (1 / 16) 262144, .consume 1400]
    ⟨⟨by decide, by decide⟩, ⟨by norm_num, by decide⟩, ⟨by decide, by decide +kernel⟩, trivial⟩
    ⟨trivial, fun b hb => Option.some.inj hb ▸ by decide +kernel, trivial, trivial⟩
  exact ⟨b, hb, hhigh⟩

/-- After 1024 seconds at the default rate the bits to convert are 2 ^ 31. -/
theorem long_gap_out_of_range :
    Along budgetStep AllowedCall (some {}) [.refill 1024 defaultMaxRate] ∧
      ((defaultMaxRate : ℚ) * 8 * 1024).floor = 2 ^ 31 ∧
      (run budgetStep (some {}) [.refill 1024 defaultMaxRate]).isNone = true := by
  refine ⟨⟨⟨by decide, by decide⟩, trivial⟩, by decide +kernel, by decide +kernel⟩

/-! ### The congestion window -/

/-- A call on the congestion control. -/
inductive CongestionCall where
  | init (maxRate : Nat)
  | reset
  | onPacketAcked
  | onPacketLost
  | onRttSample
  | evaluate
deriving DecidableEq

def congestionStep (c : CongestionControl) : CongestionCall → CongestionControl
  | .init maxRate => .init maxRate
  | .reset => c.reset
  | .onPacketAcked => c.onPacketAcked
  | .onPacketLost => c.onPacketLost
  | .onRttSample => c.onRttSample
  | .evaluate => c.evaluate

/-- The rate is between the least one and the most, and the window is not too full. -/
structure RateBounded (c : CongestionControl) : Prop where
  total : c.totalPackets ≤ congestionWindow
  low : minSendRate ≤ c.sendRate
  high : c.sendRate ≤ c.maxSendRate

theorem evaluate_cases (c : CongestionControl) :
    ∃ rate, c.evaluate = { c with sendRate := rate } ∧
      (rate = c.sendRate ∨ rate = max minSendRate (c.sendRate * 3 / 4) ∨
        rate = min c.maxSendRate (c.sendRate * 11 / 10)) := by
  simp only [CongestionControl.evaluate]
  split
  · exact ⟨_, rfl, Or.inl rfl⟩
  · split
    · exact ⟨_, rfl, Or.inr (Or.inl rfl)⟩
    · split
      · exact ⟨_, rfl, Or.inr (Or.inr rfl)⟩
      · exact ⟨_, rfl, Or.inl rfl⟩

theorem RateBounded.evaluate {c : CongestionControl} (h : RateBounded c) :
    RateBounded c.evaluate := by
  obtain ⟨hcount, hlow, hhigh⟩ := h
  obtain ⟨rate, heq, hrate⟩ := evaluate_cases c
  rw [heq]
  refine ⟨hcount, ?_, ?_⟩
  · show minSendRate ≤ rate
    omega
  · show rate ≤ c.maxSendRate
    omega

theorem rateBounded_step {c : CongestionControl} {call : CongestionCall} (h : RateBounded c)
    (hcall : ∀ maxRate, call = .init maxRate → minSendRate ≤ maxRate) :
    RateBounded (congestionStep c call) := by
  obtain ⟨hcount, hlow, hhigh⟩ := h
  cases call with
  | init maxRate => exact ⟨Nat.zero_le _, hcall maxRate rfl, Nat.le_refl _⟩
  | reset => exact ⟨Nat.zero_le _, hlow.trans hhigh, Nat.le_refl _⟩
  | onPacketAcked =>
    simp only [congestionStep, CongestionControl.onPacketAcked]
    split
    · exact ⟨Nat.le_refl _, hlow, hhigh⟩
    · rename_i hroom
      exact ⟨Nat.not_lt.mp hroom, hlow, hhigh⟩
  | onPacketLost =>
    simp only [congestionStep, CongestionControl.onPacketLost]
    split
    · exact ⟨Nat.le_refl _, hlow, hhigh⟩
    · rename_i hroom
      exact ⟨Nat.not_lt.mp hroom, hlow, hhigh⟩
  | onRttSample => exact ⟨hcount, hlow, hhigh⟩
  | evaluate => exact RateBounded.evaluate ⟨hcount, hlow, hhigh⟩

/-- No packet is counted as lost when the whole window is. -/
def LossFits (c : CongestionControl) (call : CongestionCall) : Prop :=
  call = .onPacketLost → c.lostPackets < congestionWindow
deriving Decidable

theorem lost_le_total_step {c : CongestionControl} {call : CongestionCall}
    (h : c.lostPackets ≤ c.totalPackets ∧ c.totalPackets ≤ congestionWindow)
    (hfits : LossFits c call) :
    (congestionStep c call).lostPackets ≤ (congestionStep c call).totalPackets ∧
      (congestionStep c call).totalPackets ≤ congestionWindow := by
  obtain ⟨hlost, htotal⟩ := h
  cases call with
  | init maxRate => exact ⟨Nat.le_refl _, Nat.zero_le _⟩
  | reset => exact ⟨Nat.le_refl _, Nat.zero_le _⟩
  | onPacketAcked =>
    simp only [congestionStep, CongestionControl.onPacketAcked]
    split
    · exact ⟨by simp only; omega, Nat.le_refl _⟩
    · rename_i hroom
      exact ⟨by simp only; omega, Nat.not_lt.mp hroom⟩
  | onPacketLost =>
    have hone := hfits rfl
    simp only [congestionStep, CongestionControl.onPacketLost]
    split
    · exact ⟨hone, Nat.le_refl _⟩
    · rename_i hroom
      exact ⟨Nat.succ_le_succ hlost, Nat.not_lt.mp hroom⟩
  | onRttSample => exact ⟨hlost, htotal⟩
  | evaluate =>
    obtain ⟨rate, heq, -⟩ := evaluate_cases c
    rw [congestionStep, heq]
    exact ⟨hlost, htotal⟩

theorem lossRate_le_one {c : CongestionControl} (h : c.lostPackets ≤ c.totalPackets) :
    c.lossRate ≤ 1 := by
  simp only [CongestionControl.lossRate]
  split
  · exact zero_le_one
  · exact div_le_one_of_le₀ (by exact_mod_cast h) (by positivity)

/-- **The counters of the window agree.**  The rate stays between its bounds and the window
within its size, whatever is called; and as long as no packet is counted as lost when the
whole window is, the losses stay within the packets and the loss rate is at most 1. -/
theorem congestion_counts_agree (es : List CongestionCall)
    (hinit : ∀ maxRate, .init maxRate ∈ es → minSendRate ≤ maxRate) :
    let c := run congestionStep {} es
    c.totalPackets ≤ congestionWindow ∧ minSendRate ≤ c.sendRate ∧ c.sendRate ≤ c.maxSendRate ∧
      (Along congestionStep LossFits {} es →
        c.lostPackets ≤ c.totalPackets ∧ c.lossRate ≤ 1) := by
  intro c
  have hbounded : RateBounded c :=
    run_invariant RateBounded (fun _ _ => rateBounded_step)
      ⟨Nat.zero_le _, by decide, Nat.le_refl _⟩
      (along_of_forall fun call hcall maxRate heq => hinit maxRate (heq ▸ hcall))
  refine ⟨hbounded.total, hbounded.low, hbounded.high, ?_⟩
  intro hfits
  have hlost := (run_invariant
    (fun c : CongestionControl =>
      c.lostPackets ≤ c.totalPackets ∧ c.totalPackets ≤ congestionWindow)
    (fun _ _ => lost_le_total_step) ⟨Nat.le_refl _, Nat.zero_le _⟩ hfits).1
  exact ⟨hlost, lossRate_le_one hlost⟩

/-- A window full of losses, and an ack. -/
theorem full_window_counts_agree :
    let c := run congestionStep {}
      (.init minSendRate :: List.replicate 64 .onPacketLost ++ [.evaluate, .onPacketAcked])
    c.sendRate = minSendRate ∧ c.lostPackets = 63 ∧ c.lostPackets ≤ c.totalPackets ∧
      c.lossRate ≤ 1 := by
  intro c
  have hagree := congestion_counts_agree
    (.init minSendRate :: List.replicate 64 .onPacketLost ++ [.evaluate, .onPacketAcked])
    (by simp)
  exact ⟨by decide +kernel, by decide +kernel, hagree.2.2.2 (by decide +kernel)⟩

/-- One loss more than the window has packets. -/
theorem losses_exceed_packets :
    let c := run congestionStep {} (List.replicate 65 .onPacketLost)
    c.totalPackets = 64 ∧ c.lostPackets = 65 ∧ c.lossRate = 65 / 64 ∧ ¬ c.lossRate ≤ 1 := by
  decide +kernel

end Netudp
