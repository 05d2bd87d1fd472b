/-
What the simulator does to packets.

The ring is read as the list of what it holds, oldest first.  `poll` begins at the head
and writes from cell 0 on; that it never overwrites what it has not read rests on the head
being 0, which it is between any two calls.  So a poll splits the list into what is due and
what is not, and an insert puts a packet at its end while there is room.

`submit` reports what it tried to insert, as the random numbers have it.  What it has
reported is what was handed out and what is still there exactly if there was room for all of
it; into a full queue nothing is inserted, and it is reported all the same.
-/
import Netudp.Lib.Compact
import Netudp.Proofs.NonceReuse
import Netudp.Sim.NetworkSim

namespace Netudp

open Lib

variable {F D : Type} (A : FloatOps F D)

namespace NetworkSimulator

/-! ### The content -/

/-- A packet in the queue: its bytes, the sender, and when it is due. -/
structure Parcel (D : Type) where
  bytes : Bytes
  from_ : Address
  due : D
deriving DecidableEq

/-- What a cell holds. -/
def parcel (p : SimPacket D) : Parcel D := ⟨load p.data 0 p.len, p.from_, p.deliverTime⟩

/-- What is in the queue, oldest first. -/
def content (s : NetworkSimulator F D) : List (Parcel D) :=
  (stretch s.queue 0 s.count).map parcel

/-- The queue begins in cell 0 and fits. -/
structure Based (s : NetworkSimulator F D) : Prop where
  head : s.head = 0
  tail : s.tail = s.count % 512
  count : s.count ≤ 512

theorem length_content (s : NetworkSimulator F D) : s.content.length = s.count := by
  simp [content]

theorem based_init (queue : Nat → SimPacket D) (cfg : NetSimConfig F) (seed : UInt32) :
    Based (init queue cfg seed) :=
  ⟨rfl, rfl, Nat.zero_le _⟩

/-! ### Polling -/

theorem pollLoop_eq_compact (time : D) (rounds : Nat) :
    ∀ (n write : Nat) (queue : Nat → SimPacket D), n + rounds ≤ 512 →
      pollLoop A time 0 rounds n write queue =
        ((compact (fun p => A.leD p.deliverTime time) rounds n write queue).1.map fun p =>
            (load p.data 0 p.len, p.from_),
          (compact (fun p => A.leD p.deliverTime time) rounds n write queue).2) := by
  induction rounds with
  | zero =>
    intro n write queue _
    rfl
  | succ rounds ih =>
    intro n write queue hbound
    have hidx : (0 + n) % 512 = n := by omega
    rw [pollLoop, compact, hidx]
    by_cases hdue : A.leD (queue n).deliverTime time = true
    · rw [if_pos hdue, if_pos hdue, ih (n + 1) write queue (by omega)]
      rfl
    · rw [if_neg hdue, if_neg hdue]
      have hcell : (if write ≠ n then Function.update queue write (queue n) else queue) =
          Function.update queue write (queue n) := by
        split
        · rfl
        · rename_i heq
          rw [not_not.mp heq, Function.update_eq_self]
      rw [hcell, ih (n + 1) (write + 1) _ (by omega)]

/-- **A poll hands out what is due and keeps the rest, both in the order they came in.** -/
theorem poll_spec {s : NetworkSimulator F D} (h : Based s) (time : D) :
    (s.poll A time).1 =
        (s.content.filter fun p => A.leD p.due time).map (fun p => (p.bytes, p.from_)) ∧
      (s.poll A time).2.content = s.content.filter (fun p => !A.leD p.due time) ∧
      Based (s.poll A time).2 := by
  have hpass := compact_spec (fun p => A.leD p.deliverTime time) s.count 0 0 s.queue
    (Nat.le_refl 0)
  have hloop := pollLoop_eq_compact A time s.count 0 0 s.queue (by rw [Nat.zero_add]; exact h.count)
  generalize compact (fun p => A.leD p.deliverTime time) s.count 0 0 s.queue = pass at hpass hloop
  have hkept := hpass.kept
  rw [Nat.sub_zero] at hkept
  simp only [poll, h.head, hloop]
  refine ⟨?_, ?_, rfl, rfl, ?_⟩
  · show pass.1.map _ = _
    rw [hpass.out, content, List.filter_map, List.map_map]
    rfl
  · show (stretch pass.2.1 0 pass.2.2).map parcel = _
    rw [hkept, content, List.filter_map]
    rfl
  · show pass.2.2 ≤ 512
    rw [hpass.moved, Nat.zero_add]
    refine Nat.le_trans (List.length_filter_le _ _) ?_
    rw [length_stretch]
    exact h.count

/-! ### Submitting -/

/-- The packet as it is put in the queue. -/
def incoming (data : Bytes) (from_ : Address) (due : D) : Parcel D := ⟨data.take 1500, from_, due⟩

/-- What a `memcpy` of at most 1500 bytes leaves in the cell. -/
theorem load_copied (cell : Int → UInt8) (data : Bytes) :
    load (store cell 0 (if data.length < 1500 then data.length else 1500) (data.getD · 0)) 0
      (if data.length < 1500 then data.length else 1500) = data.take 1500 := by
  have hlen : (if data.length < 1500 then data.length else 1500) = (data.take 1500).length := by
    rw [List.length_take]
    split
    · omega
    · omega
  rw [hlen, load_store_self]
  refine List.ext_getElem (by simp) fun i hi hi' => ?_
  have hdata : i < data.length := by
    rw [List.length_take] at hi'
    omega
  simp [hdata]

theorem insert_full {s : NetworkSimulator F D} (h : 512 ≤ s.count) (data : Bytes)
    (from_ : Address) (due : D) : s.insert data from_ due = s :=
  if_pos h

/-- An insert puts the packet at the end, if there is room. -/
theorem insert_spec {s : NetworkSimulator F D} (h : Based s) (hroom : s.count < 512)
    (data : Bytes) (from_ : Address) (due : D) :
    (s.insert data from_ due).content = s.content ++ [incoming data from_ due] ∧
      (s.insert data from_ due).count = s.count + 1 ∧ Based (s.insert data from_ due) := by
  have htail : s.tail = s.count := by rw [h.tail, Nat.mod_eq_of_lt hroom]
  rw [insert, if_neg (Nat.not_le.mpr hroom)]
  refine ⟨?_, rfl, h.head, ?_, hroom⟩
  · have hold : ∀ cell, stretch (Function.update s.queue s.tail cell) 0 s.count =
        stretch s.queue 0 s.count :=
      fun cell => stretch_congr fun i _ hi => Function.update_of_ne (by omega) _ _
    simp only [content, stretch_append_one, hold, Nat.zero_add, List.map_append, List.map_cons,
      List.map_nil]
    rw [← htail, Function.update_self, parcel, load_copied]
    rfl
  · show (s.tail + 1) % 512 = (s.count + 1) % 512
    rw [htail]

/-- So many copies inserted, of which those that find no room are dropped. -/
theorem iterate_insert_spec {s : NetworkSimulator F D} (h : Based s) (data : Bytes)
    (from_ : Address) (due : D) (n : Nat) :
    let s' := (fun s => insert s data from_ due)^[n] s
    s'.content = s.content ++ (List.replicate n (incoming data from_ due)).take (512 - s.count) ∧
      s'.count = min 512 (s.count + n) ∧ Based s' := by
  induction n with
  | zero => exact ⟨by simp, by simp [h.count], h⟩
  | succ n ih =>
    obtain ⟨hcontent, hcount, hbased⟩ := ih
    rw [Function.iterate_succ_apply']
    generalize (fun s => insert s data from_ due)^[n] s = s₁ at hcontent hcount hbased
    show (insert s₁ data from_ due).content = _ ∧ (insert s₁ data from_ due).count = _ ∧
      Based (insert s₁ data from_ due)
    by_cases hroom : s₁.count < 512
    · obtain ⟨hcontent₁, hcount₁, hbased₁⟩ := insert_spec hbased hroom data from_ due
      refine ⟨?_, by omega, hbased₁⟩
      rw [hcontent₁, hcontent, List.take_of_length_le (by rw [List.length_replicate]; omega),
        List.take_of_length_le (by rw [List.length_replicate]; omega), List.replicate_succ',
        List.append_assoc]
    · rw [insert_full (Nat.le_of_not_lt hroom)]
      refine ⟨?_, by omega, hbased⟩
      rw [hcontent, List.take_replicate, List.take_replicate]
      congr 2
      omega

/-- What `submit` does is to draw some numbers and to insert the packet as often as it says. -/
theorem submit_eq (s : NetworkSimulator F D) (data : Bytes) (from_ : Address) (time : D) :
    ∃ n due seed, s.submit A data from_ time =
      (n, (fun s => insert s data from_ due)^[n] { s with rngState := seed }) := by
  simp only [submit]
  split
  · exact ⟨0, time, _, rfl⟩
  split
  · exact ⟨2, _, _, rfl⟩
  split
  · exact ⟨1, _, _, rfl⟩
  · exact ⟨1, _, _, rfl⟩

/-- **A submit puts as many copies as it reports at the end of the queue, as far as they fit.** -/
theorem submit_spec {s : NetworkSimulator F D} (h : Based s) (data : Bytes) (from_ : Address)
    (time : D) :
    (∃ due, (s.submit A data from_ time).2.content = s.content ++
        (List.replicate (s.submit A data from_ time).1 (incoming data from_ due)).take
          (512 - s.count)) ∧
      (s.submit A data from_ time).2.count = min 512 (s.count + (s.submit A data from_ time).1) ∧
      Based (s.submit A data from_ time).2 := by
  obtain ⟨n, due, seed, hsubmit⟩ := submit_eq A s data from_ time
  have hseeded : Based { s with rngState := seed } := ⟨h.head, h.tail, h.count⟩
  obtain ⟨hcontent, hcount, hbased⟩ := iterate_insert_spec hseeded data from_ due n
  rw [hsubmit]
  exact ⟨⟨due, hcontent⟩, hcount, hbased⟩

/-! ### Runs -/

/-- The calls of the simulator. -/
inductive Call (D : Type) where
  | submit (data : Bytes) (from_ : Address) (time : D)
  | poll (time : D)

/-- The simulator, the sum of what `submit` returned, and the number of callbacks. -/
structure Tally (F D : Type) where
  sim : NetworkSimulator F D
  submitted : Nat
  callbacks : Nat

/-- The simulator after a call. -/
def tally (t : Tally F D) : Call D → Tally F D
  | .submit data from_ time =>
    let (n, sim) := t.sim.submit A data from_ time
    { t with sim := sim, submitted := t.submitted + n }
  | .poll time =>
    let (calls, sim) := t.sim.poll A time
    { t with sim := sim, callbacks := t.callbacks + calls.length }

/-- After `init` and the calls. -/
def after (queue : Nat → SimPacket D) (cfg : NetSimConfig F) (seed : UInt32)
    (calls : List (Call D)) : Tally F D :=
  run (tally A) ⟨init queue cfg seed, 0, 0⟩ calls

/-- The random number after the next `n`. -/
def draw (s : NetworkSimulator F D) (n : Nat) : F :=
  (((fun s => (s.randFloat A).2)^[n] s).randFloat A).1

/-- The copies of the next packet: none if the first random number has it lost, two if the
fourth has it duplicated. -/
def copies (s : NetworkSimulator F D) : Nat :=
  if A.lt (s.draw A 0) s.config.lossPercent then 0
  else if A.lt (s.draw A 3) s.config.duplicatePercent then 2 else 1

theorem submit_fst (s : NetworkSimulator F D) (data : Bytes) (from_ : Address) (time : D) :
    (s.submit A data from_ time).1 = s.copies A := by
  have hfirst : A.lt (s.randFloat A).1 (s.randFloat A).2.config.lossPercent =
      A.lt (s.draw A 0) s.config.lossPercent := rfl
  have hfourth : A.lt (((s.randFloat A).2.deliverTime A time).2.randFloat A).1
      (((s.randFloat A).2.deliverTime A time).2.randFloat A).2.config.duplicatePercent =
        A.lt (s.draw A 3) s.config.duplicatePercent := rfl
  simp only [submit, copies, hfirst, hfourth]
  split
  · rfl
  · split
    · rfl
    · split
      · rfl
      · rfl

/-- There is room for every copy of the next packet. -/
def HasRoom (t : Tally F D) : Call D → Prop
  | .submit _ _ _ => t.sim.count + t.sim.copies A ≤ 512
  | .poll _ => True

instance (t : Tally F D) : (call : Call D) → Decidable (HasRoom A t call)
  | .submit _ _ _ => inferInstanceAs (Decidable (t.sim.count + t.sim.copies A ≤ 512))
  | .poll _ => isTrue trivial

variable {A}

theorem Based.tally {t : Tally F D} (h : Based t.sim) (call : Call D) :
    Based (tally A t call).sim := by
  cases call with
  | submit data from_ time => exact (submit_spec A h data from_ time).2.2
  | poll time => exact (poll_spec A h time).2.2

/-- So many of the packets that were reported are neither queued nor handed out. -/
def Lost (t : Tally F D) (lost : Nat) : Prop := t.submitted = t.callbacks + t.sim.count + lost

/-- A call loses what it reports and finds no room for. -/
theorem Lost.tally {t : Tally F D} {lost : Nat} (h : Lost t lost) (hbased : Based t.sim)
    (call : Call D) :
    ∃ more, Lost (tally A t call) (lost + more) ∧ (more = 0 ↔ HasRoom A t call) := by
  unfold Lost at h
  cases call with
  | submit data from_ time =>
    have hcount := (submit_spec A hbased data from_ time).2.1
    rw [submit_fst] at hcount
    refine ⟨t.sim.count + t.sim.copies A - 512, ?_, Nat.sub_eq_zero_iff_le⟩
    show t.submitted + (t.sim.submit A data from_ time).1 =
      t.callbacks + (t.sim.submit A data from_ time).2.count + _
    rw [hcount, submit_fst]
    omega
  | poll time =>
    obtain ⟨hcalls, hcontent, -⟩ := poll_spec A hbased time
    have hsplit := List.length_eq_length_filter_add (l := t.sim.content) fun p => A.leD p.due time
    rw [← hcontent, length_content, length_content] at hsplit
    refine ⟨0, ?_, iff_of_true rfl trivial⟩
    show t.submitted = t.callbacks + (t.sim.poll A time).1.length + (t.sim.poll A time).2.count + _
    rw [hcalls, List.length_map]
    omega

/-- A run loses more exactly if a call of it does. -/
theorem Lost.run (calls : List (Call D)) : ∀ {t : Tally F D} {lost : Nat}, Lost t lost →
    Based t.sim → ∃ more, Lost (run (NetworkSimulator.tally A) t calls) (lost + more) ∧
      (more = 0 ↔ Along (NetworkSimulator.tally A) (HasRoom A) t calls) := by
  induction calls with
  | nil => exact fun h _ => ⟨0, h, iff_of_true rfl trivial⟩
  | cons call rest ih =>
    intro t lost h hbased
    obtain ⟨first, hfirst, hroom⟩ := h.tally hbased call
    obtain ⟨others, hrest, hrooms⟩ := ih hfirst (hbased.tally call)
    refine ⟨first + others, by rwa [← Nat.add_assoc], ?_⟩
    rw [Nat.add_eq_zero_iff, hroom, hrooms]
    rfl

/-- **The simulator conserves packets** exactly if every submit finds room: what `submit`
has returned is what was handed out and what is still queued.  In any state a submit
appends copies of the packet, cut to 1500 bytes, as many as it returns or as fit, and a
poll hands out exactly the packets that are due, in order, and keeps the others in order. -/
theorem simulator_conserves (A : FloatOps F D) (queue : Nat → SimPacket D) (cfg : NetSimConfig F)
    (seed : UInt32) (calls : List (Call D)) :
    let t := after A queue cfg seed calls
    (t.submitted = t.callbacks + t.sim.content.length ↔
      Along (tally A) (HasRoom A) ⟨init queue cfg seed, 0, 0⟩ calls) ∧
    (∀ data from_ time, ∃ due, (t.sim.submit A data from_ time).2.content = t.sim.content ++
      (List.replicate (t.sim.submit A data from_ time).1 ⟨data.take 1500, from_, due⟩).take
        (512 - t.sim.content.length)) ∧
    ∀ time,
      (t.sim.poll A time).1 =
        (t.sim.content.filter fun p => A.leD p.due time).map (fun p => (p.bytes, p.from_)) ∧
      (t.sim.poll A time).2.content = t.sim.content.filter (fun p => !A.leD p.due time) := by
  intro t
  have hbased : Based t.sim :=
    run_invariant' (fun t : Tally F D => Based t.sim) (fun _ call h => h.tally call) calls
      (based_init queue cfg seed)
  refine ⟨?_, ?_, ?_⟩
  · have hstart : Lost (⟨init queue cfg seed, 0, 0⟩ : Tally F D) 0 := rfl
    obtain ⟨lost, hlost, hrooms⟩ := hstart.run (A := A) calls (based_init queue cfg seed)
    have hsum : t.submitted = t.callbacks + t.sim.count + (0 + lost) := hlost
    rw [length_content, ← hrooms]
    omega
  · intro data from_ time
    rw [length_content]
    exact (submit_spec A hbased data from_ time).1
  · intro time
    obtain ⟨hcalls, hcontent, -⟩ := poll_spec A hbased time
    exact ⟨hcalls, hcontent⟩

/-! ### A full queue -/

/-- Exact arithmetic. -/
def ratOps : FloatOps ℚ ℚ where
  ofNat n := n
  add := (· + ·)
  sub := (· - ·)
  mul := (· * ·)
  div := (· / ·)
  lt a b := a < b
  widen a := a
  ofNatD n := n
  addD := (· + ·)
  divD := (· / ·)
  leD a b := a ≤ b

/-- A network that duplicates every packet, with 20 to 30 ms of latency. -/
def duplicating : NetSimConfig ℚ := ⟨20, 30, 0, 0, 100, 0⟩

/-- A queue nothing has been put in. -/
def blankQueue : Nat → SimPacket ℚ := fun _ => ⟨fun _ => 0, 0, toyAddress, 0⟩

/-- Two packets, the first of which is polled before the second comes in. -/
def twoPackets : List (Call ℚ) :=
  [.submit [1, 2, 3] toyAddress 0, .poll 1, .submit [4] toyAddress 1]

theorem two_packets_conserved :
    let t := after ratOps blankQueue duplicating 12345 twoPackets
    t.submitted = 4 ∧ t.callbacks = 2 ∧ t.submitted = t.callbacks + t.sim.content.length := by
  refine ⟨by decide +kernel, by decide +kernel,
    (simulator_conserves ratOps blankQueue duplicating 12345 twoPackets).1.mpr (by decide +kernel)⟩

theorem randFloat_range (s : NetworkSimulator ℚ ℚ) :
    0 ≤ (s.randFloat ratOps).1 ∧ (s.randFloat ratOps).1 < 100 := by
  have hmod : s.randU32.1.toNat % 10000 < 10000 := Nat.mod_lt _ (by decide)
  show 0 ≤ ((s.randU32.1.toNat % 10000 : Nat) : ℚ) / (100 : Nat) ∧
    ((s.randU32.1.toNat % 10000 : Nat) : ℚ) / (100 : Nat) < 100
  generalize s.randU32.1.toNat % 10000 = k at hmod
  refine ⟨div_nonneg (Nat.cast_nonneg k) (Nat.cast_nonneg 100), ?_⟩
  rw [div_lt_iff₀ (by norm_num)]
  norm_num
  exact_mod_cast hmod

theorem submit_config (s : NetworkSimulator F D) (data : Bytes) (from_ : Address) (time : D) :
    (s.submit A data from_ time).2.config = s.config := by
  have hinsert : ∀ (due : D) (n : Nat) (s : NetworkSimulator F D),
      ((fun s => insert s data from_ due)^[n] s).config = s.config := by
    intro due n s
    induction n with
    | zero => rfl
    | succ n ih =>
      rw [Function.iterate_succ_apply', ← ih, insert]
      split
      · rfl
      · rfl
  obtain ⟨n, due, seed, hsubmit⟩ := submit_eq A s data from_ time
  rw [hsubmit]
  exact hinsert due n _

theorem submit_duplicating {s : NetworkSimulator ℚ ℚ} (h : s.config = duplicating) (data : Bytes)
    (from_ : Address) (time : ℚ) :
    (s.submit ratOps data from_ time).1 = 2 := by
  have hlost : ¬ratOps.lt (s.draw ratOps 0) duplicating.lossPercent = true := fun hlt =>
    absurd (of_decide_eq_true hlt) (not_lt.mpr (randFloat_range _).1)
  have htwice : ratOps.lt (s.draw ratOps 3) duplicating.duplicatePercent = true :=
    decide_eq_true (randFloat_range _).2
  rw [submit_fst, copies, h, if_neg hlost, if_pos htwice]

/-- So many submits with duplication, none of which finds the queue polled. -/
theorem submits_duplicating (n : Nat) (queue : Nat → SimPacket ℚ) (seed : UInt32) (data : Bytes)
    (from_ : Address) (time : ℚ) :
    let t := after ratOps queue duplicating seed (List.replicate n (.submit data from_ time))
    t.submitted = 2 * n ∧ t.callbacks = 0 ∧ t.sim.count = min 512 (2 * n) ∧
      t.sim.config = duplicating ∧ Based t.sim := by
  induction n with
  | zero => exact ⟨rfl, rfl, rfl, rfl, based_init queue duplicating seed⟩
  | succ n ih =>
    obtain ⟨hsub, hcalls, hcount, hconfig, hbased⟩ := ih
    rw [after, List.replicate_succ', run_append, run_cons, run_nil, ← after]
    generalize after ratOps queue duplicating seed (List.replicate n (.submit data from_ time)) = t
      at hsub hcalls hcount hconfig hbased
    have htwo := submit_duplicating hconfig data from_ time
    have hspec := submit_spec ratOps hbased data from_ time
    refine ⟨?_, hcalls, ?_, ?_, hspec.2.2⟩
    · show t.submitted + (t.sim.submit ratOps data from_ time).1 = 2 * (n + 1)
      omega
    · show (t.sim.submit ratOps data from_ time).2.count = min 512 (2 * (n + 1))
      rw [hspec.2.1]
      omega
    · exact (submit_config t.sim data from_ time).trans hconfig

/-- Packets into that network, none of which is polled. -/
def unpolled (n : Nat) : Tally ℚ ℚ :=
  after ratOps blankQueue duplicating 12345 (List.replicate n (.submit [1] toyAddress 0))

/-- **A submit into a full queue** reports two packets and inserts none: after 257 packets,
each duplicated, 514 have been reported, 512 are queued and none was handed out. -/
theorem full_queue_loses :
    (unpolled 257).submitted = 514 ∧ (unpolled 257).callbacks = 0 ∧
      (unpolled 257).sim.content.length = 512 := by
  obtain ⟨hsub, hcalls, hcount, -, -⟩ :=
    submits_duplicating 257 blankQueue 12345 [1] toyAddress 0
  rw [← unpolled] at hsub hcalls hcount
  rw [length_content, hsub, hcalls, hcount]
  decide

end NetworkSimulator

end Netudp
