/-
The rate limit.

What an address can still send at a moment is the level of its bucket: the tokens it would
have after a refill, or a full burst if it has no bucket.  The level rises by 60 in a
second and a packet that is let through takes one off it.  A bucket that `cleanup` removes
has been full for long, so forgetting it does not raise the level.

All of this takes it that a new address gets a bucket.  Once the table is full of others it
does not, and every packet of it is let through.
-/
import Netudp.Connection.RateLimiter
import Netudp.Lib.TokenBucket
import Netudp.Proofs.HashMap
import Netudp.Proofs.NonceReuse

namespace Netudp

open Lib FixedHashMap
open scoped RateLimits

variable {R : Type} [Field R] [LinearOrder R]

/-! ### Runs -/

/-- The calls on the limiter. -/
inductive LimiterCall (R : Type) where
  | allow (addr : Address) (now : R)
  | cleanup (now : R)

/-- The time a call is given. -/
def LimiterCall.time : LimiterCall R → R
  | .allow _ now => now
  | .cleanup now => now

/-- A call on the limiter. -/
def limiterStep (l : RateLimiter R) : LimiterCall R → RateLimiter R
  | .allow addr now => (l.allow addr now).2
  | .cleanup now => l.cleanup now

/-- The call is `allow` for the address and returns true.  Addresses that differ only in bytes
that do not count for their type have one key and one bucket, and count as one. -/
def allows (a : Address) (l : RateLimiter R) : LimiterCall R → Bool
  | .allow addr now => decide (makeKey addr = makeKey a) && (l.allow addr now).1
  | .cleanup _ => false

/-- How many calls for the address from `t₁` to `t₂` return true. -/
def allowedIn (a : Address) (t₁ t₂ : R) (l : RateLimiter R) (calls : List (LimiterCall R)) : Nat :=
  takenIn limiterStep LimiterCall.time (allows a) t₁ t₂ l calls

/-- An address without a bucket finds room for one. -/
def HasRoomFor (l : RateLimiter R) : LimiterCall R → Prop
  | .allow addr _ => l.buckets.find fnv1a (makeKey addr) = none → l.buckets.size < 4096
  | .cleanup _ => True

instance (l : RateLimiter R) : ∀ call, Decidable (HasRoomFor l call)
  | .allow _ _ => inferInstanceAs (Decidable (_ → _))
  | .cleanup _ => isTrue trivial

theorem rawBytes_addressKey {key key' : AddressKey} :
    rawBytes key = rawBytes key' ↔ key = key' := by
  constructor
  · intro h
    obtain ⟨bytes⟩ := key
    obtain ⟨bytes'⟩ := key'
    exact congrArg AddressKey.mk (Vector.toList_inj.mp h)
  · exact congrArg rawBytes

/-! ### One bucket -/

namespace RateBucket

/-- The tokens the bucket has once it is refilled. -/
def level (bucket : RateBucket R) (t : R) : R :=
  min 10 (bucket.tokens + 60 * (t - bucket.lastRefillTime))

/-- What holds of a bucket at a time. -/
structure Sound (bucket : RateBucket R) (t : R) : Prop where
  nonneg : 0 ≤ bucket.tokens
  capped : bucket.tokens ≤ 10
  refilled : bucket.lastRefillTime ≤ bucket.lastActivityTime
  active : bucket.lastActivityTime ≤ t

variable {bucket : RateBucket R} {t t' : R}

theorem level_of_refilled (hcapped : bucket.tokens ≤ 10) (ht : bucket.lastRefillTime = t) :
    bucket.level t = bucket.tokens := by
  rw [level, ht, sub_self, mul_zero, add_zero, min_eq_right hcapped]

theorem level_le (bucket : RateBucket R) (t : R) : bucket.level t ≤ 10 := min_le_left _ _

theorem Sound.later (h : bucket.Sound t) (ht : t ≤ t') : bucket.Sound t' :=
  ⟨h.nonneg, h.capped, h.refilled, le_trans h.active ht⟩

variable [IsStrictOrderedRing R]

theorem Sound.gain_nonneg (h : bucket.Sound t) : 0 ≤ 60 * (t - bucket.lastRefillTime) :=
  mul_nonneg (by norm_num) (sub_nonneg.mpr (le_trans h.refilled h.active))

theorem Sound.level_nonneg (h : bucket.Sound t) : 0 ≤ bucket.level t :=
  le_min (by norm_num) (add_nonneg h.nonneg h.gain_nonneg)

theorem level_rises (bucket : RateBucket R) (ht : t ≤ t') :
    bucket.level t' ≤ bucket.level t + 60 * (t' - t) := by
  have hgain : 0 ≤ 60 * (t' - t) := mul_nonneg (by norm_num) (sub_nonneg.mpr ht)
  have hsplit : bucket.tokens + 60 * (t' - bucket.lastRefillTime) =
      bucket.tokens + 60 * (t - bucket.lastRefillTime) + 60 * (t' - t) := by ring
  rw [level, level, hsplit, min_add]
  exact min_le_min_right _ (le_add_of_nonneg_right hgain)

theorem Sound.level_expired (h : bucket.Sound t) (hexpired : 30 < t - bucket.lastActivityTime) :
    bucket.level t = 10 := by
  refine min_eq_left ?_
  have htokens := h.nonneg
  have hrefilled := h.refilled
  linarith

/-- `refill` brings the tokens up to the level. -/
theorem Sound.refill_eq (h : bucket.Sound t) :
    bucket.refill t = { bucket with tokens := bucket.level t, lastRefillTime := t } := by
  simp only [refill]
  split
  · congr 1
    split
    case isTrue hover => rw [level, min_eq_left (le_of_lt hover)]
    case isFalse hunder => rw [level, min_eq_right (not_lt.mp hunder)]
  · -- The last refill was at this time.
    rename_i hnot
    have hsame : bucket.lastRefillTime = t := by
      have hle := le_trans h.refilled h.active
      linarith
    rw [level_of_refilled h.capped hsame, ← hsame]

/-- A packet that is let through takes one off the level; one that is not, nothing. -/
theorem Sound.take (h : bucket.Sound t) :
    (bucket.take t).2.Sound t ∧
      (bucket.take t).2.level t + (if (bucket.take t).1 = true then 1 else 0) = bucket.level t := by
  have hnonneg := h.level_nonneg
  have hcapped := bucket.level_le t
  simp only [RateBucket.take, h.refill_eq]
  split
  · rename_i hone
    have hless : bucket.level t - 1 ≤ 10 := by linarith
    refine ⟨⟨sub_nonneg.mpr hone, hless, le_refl t, le_refl t⟩, ?_⟩
    rw [level_of_refilled hless rfl, if_pos rfl, sub_add_cancel]
  · refine ⟨⟨hnonneg, hcapped, le_refl t, le_refl t⟩, ?_⟩
    rw [level_of_refilled hcapped rfl, if_neg Bool.false_ne_true, add_zero]

theorem sound_first (t : R) : (⟨10 - 1, t, t⟩ : RateBucket R).Sound t :=
  ⟨by norm_num, by norm_num, le_refl t, le_refl t⟩

theorem level_first (t : R) : (⟨10 - 1, t, t⟩ : RateBucket R).level t + 1 = 10 := by
  rw [level_of_refilled (sound_first t).capped rfl, sub_add_cancel]

end RateBucket

/-! ### All buckets -/

/-- The table is a table of sound buckets. -/
def RateLimiter.Sound (l : RateLimiter R) (t : R) : Prop :=
  ∃ f, l.buckets.Represents fnv1a f ∧ ∀ key bucket, f.lookup key = some bucket → bucket.Sound t

/-- What an address can still send at a time. -/
def RateLimiter.level (key : AddressKey) (l : RateLimiter R) (t : R) : R :=
  (l.buckets.find fnv1a key).elim 10 (·.level t)

theorem level_of_represents {l : RateLimiter R} {f : Bindings (RateBucket R)}
    (hf : l.buckets.Represents fnv1a f) (key : AddressKey) (t : R) :
    l.level key t = (f.lookup (rawBytes key)).elim 10 (·.level t) := by
  rw [RateLimiter.level, hf.find_eq]

namespace RateLimiter

variable {l : RateLimiter R} {t t' : R} {key : AddressKey}

theorem Sound.later (h : l.Sound t) (ht : t ≤ t') : l.Sound t' := by
  obtain ⟨f, hf, hsound⟩ := h
  exact ⟨f, hf, fun key bucket hlookup => (hsound key bucket hlookup).later ht⟩

theorem sound_clear (t : R) : (⟨.clear⟩ : RateLimiter R).Sound t := by
  refine ⟨∅, represents_clear, ?_⟩
  intro key bucket hlookup
  rw [Finmap.lookup_empty] at hlookup
  exact absurd hlookup.symm (Option.some_ne_none bucket)

theorem level_le (key : AddressKey) (l : RateLimiter R) (t : R) : l.level key t ≤ 10 := by
  rw [level]
  cases l.buckets.find fnv1a key with
  | none => exact le_refl _
  | some bucket => exact bucket.level_le t

/-! ### What `cleanup` removes -/

/-- The bucket has not been used for `EXPIRY_SEC`. -/
def Expired (t : R) (bucket : RateBucket R) : Prop := 30 < t - bucket.lastActivityTime

theorem expired_of_mem {f : Bindings (RateBucket R)} (hf : l.buckets.Represents fnv1a f)
    (hmem : key ∈ l.expiredKeys t) {bucket : RateBucket R}
    (hlookup : f.lookup (rawBytes key) = some bucket) : Expired t bucket := by
  obtain ⟨i, -, hcollected⟩ := List.mem_filterMap.mp (List.mem_of_mem_take hmem)
  obtain ⟨⟨key', bucket'⟩, hentry, hsome⟩ := Option.bind_eq_some_iff.mp hcollected
  have hlookup' : f.lookup (rawBytes key') = some bucket' :=
    (hf.binds _ _).mpr ⟨key', ⟨i, hentry⟩, rfl⟩
  split at hsome
  · rename_i hexpired
    obtain rfl := Option.some.inj hsome
    rw [hlookup] at hlookup'
    rwa [Option.some.inj hlookup']
  · exact absurd hsome.symm (Option.some_ne_none key)

/-- `cleanup` takes out expired buckets only. -/
theorem cleanup_represents {f : Bindings (RateBucket R)} (hf : l.buckets.Represents fnv1a f)
    (t : R) :
    ∃ f', (l.cleanup t).buckets.Represents fnv1a f' ∧
      ∀ k, f'.lookup k = f.lookup k ∨
        (f'.lookup k = none ∧ ∃ bucket, f.lookup k = some bucket ∧ Expired t bucket) := by
  have hcleanup : l.cleanup t = ⟨(l.expiredKeys t).foldl
      (fun buckets key => (buckets.remove fnv1a key).2) l.buckets⟩ := rfl
  have hcollected : ∀ key ∈ l.expiredKeys t, ∀ bucket,
      f.lookup (rawBytes key) = some bucket → Expired t bucket :=
    fun key hmem bucket => expired_of_mem hf hmem
  rw [hcleanup]
  -- Only that they are expired matters of the keys.
  generalize l.expiredKeys t = keys at hcollected
  exact hf.removeAll keys hcollected

theorem Sound.cleanup (h : l.Sound t) : (l.cleanup t).Sound t := by
  obtain ⟨f, hf, hsound⟩ := h
  obtain ⟨f', hf', hlookups⟩ := cleanup_represents hf t
  refine ⟨f', hf', ?_⟩
  intro key bucket hlookup
  rcases hlookups key with heq | ⟨hnone, -⟩
  · exact hsound key bucket (heq ▸ hlookup)
  · rw [hnone] at hlookup
    exact absurd hlookup.symm (Option.some_ne_none bucket)

/-! ### The level of an address -/

variable [IsStrictOrderedRing R]

theorem Sound.level_nonneg (h : l.Sound t) (key : AddressKey) : 0 ≤ l.level key t := by
  obtain ⟨f, hf, hsound⟩ := h
  rw [level_of_represents hf]
  cases hlookup : f.lookup (rawBytes key) with
  | none => exact (by norm_num : (0 : R) ≤ 10)
  | some bucket => exact (hsound _ bucket hlookup).level_nonneg

theorem level_rises (key : AddressKey) (l : RateLimiter R) (ht : t ≤ t') :
    l.level key t' ≤ l.level key t + 60 * (t' - t) := by
  rw [level, level]
  cases l.buckets.find fnv1a key with
  | none =>
    have hgain : 0 ≤ 60 * (t' - t) := mul_nonneg (by norm_num) (sub_nonneg.mpr ht)
    exact le_add_of_nonneg_right hgain
  | some bucket => exact bucket.level_rises ht

/-! ### `allow` -/

/-- `allow` leaves the address a bucket, and the level is down by the packet it lets through. -/
theorem Sound.allow_represents {f : Bindings (RateBucket R)}
    (hf : l.buckets.Represents fnv1a f)
    (hsound : ∀ key bucket, f.lookup key = some bucket → bucket.Sound t) {addr : Address}
    (hroom : HasRoomFor l (.allow addr t)) :
    ∃ bucket : RateBucket R, bucket.Sound t ∧
      (l.allow addr t).2.buckets.Represents fnv1a (f.insert (rawBytes (makeKey addr)) bucket) ∧
      bucket.level t + (if (l.allow addr t).1 = true then 1 else 0) = l.level (makeKey addr) t := by
  have hfind := hf.find_eq (makeKey addr)
  cases hlookup : f.lookup (rawBytes (makeKey addr)) with
  | none =>
    rw [hlookup] at hfind
    have hsize : f.keys.card < 4096 := by
      rw [← hf.size]
      exact hroom hfind
    have hallow : l.allow addr t =
        (true, ⟨(l.buckets.insert fnv1a (makeKey addr) ⟨10 - 1, t, t⟩).2⟩) := by
      rw [allow, hfind]
    refine ⟨⟨10 - 1, t, t⟩, RateBucket.sound_first t, ?_, ?_⟩
    · rw [hallow]
      exact (hf.insert_new _ (Finmap.lookup_eq_none.mp hlookup) hsize).2
    · rw [hallow, if_pos rfl, RateBucket.level_first, level, hfind, Option.elim_none]
  | some bucket =>
    rw [hlookup] at hfind
    have hallow : l.allow addr t =
        ((bucket.take t).1, ⟨(l.buckets.insert fnv1a (makeKey addr) (bucket.take t).2).2⟩) := by
      rw [allow, hfind]
    obtain ⟨htaken, hlevel⟩ := (hsound _ bucket hlookup).take
    refine ⟨(bucket.take t).2, htaken, ?_, ?_⟩
    · rw [hallow]
      exact (hf.insert_mem _ (Finmap.mem_of_lookup_eq_some hlookup)).2
    · rw [hallow, hlevel, level, hfind, Option.elim_some]

theorem Sound.allow (h : l.Sound t) {addr : Address} (hroom : HasRoomFor l (.allow addr t)) :
    (l.allow addr t).2.Sound t := by
  obtain ⟨f, hf, hsound⟩ := h
  obtain ⟨bucket, hbucket, hrep, -⟩ := Sound.allow_represents hf hsound hroom
  refine ⟨_, hrep, ?_⟩
  intro key other hlookup
  by_cases hkey : key = rawBytes (makeKey addr)
  · rw [hkey, Finmap.lookup_insert] at hlookup
    rwa [← Option.some.inj hlookup]
  · rw [Finmap.lookup_insert_of_ne _ hkey] at hlookup
    exact hsound key other hlookup

/-- A packet that is let through takes one off the level of its address, and no other level
changes. -/
theorem Sound.level_allow (h : l.Sound t) {addr : Address} (hroom : HasRoomFor l (.allow addr t))
    (a : Address) :
    (l.allow addr t).2.level (makeKey a) t +
        (if allows a l (.allow addr t) = true then 1 else 0) = l.level (makeKey a) t := by
  obtain ⟨f, hf, hsound⟩ := h
  obtain ⟨bucket, -, hrep, hlevel⟩ := Sound.allow_represents hf hsound hroom
  rw [level_of_represents hrep]
  by_cases hkey : makeKey addr = makeKey a
  · have hallows : allows a l (.allow addr t) = (l.allow addr t).1 := by
      rw [allows, decide_eq_true hkey, Bool.true_and]
    rw [hallows, ← hkey, Finmap.lookup_insert, Option.elim_some, hlevel]
  · have hallows : allows a l (.allow addr t) = false := by
      rw [allows, decide_eq_false hkey, Bool.false_and]
    have hbytes : rawBytes (makeKey a) ≠ rawBytes (makeKey addr) := fun heq =>
      hkey (rawBytes_addressKey.mp heq).symm
    rw [hallows, if_neg Bool.false_ne_true, add_zero, Finmap.lookup_insert_of_ne _ hbytes,
      level_of_represents hf]

/-! ### `cleanup` -/

/-- No level changes: a bucket that is forgotten was full. -/
theorem Sound.level_cleanup (h : l.Sound t) (key : AddressKey) :
    (l.cleanup t).level key t = l.level key t := by
  obtain ⟨f, hf, hsound⟩ := h
  obtain ⟨f', hf', hlookups⟩ := cleanup_represents hf t
  rw [level_of_represents hf', level_of_represents hf]
  rcases hlookups (rawBytes key) with heq | ⟨hnone, bucket, hlookup, hexpired⟩
  · rw [heq]
  · rw [hnone, hlookup, Option.elim_none, Option.elim_some,
      (hsound _ bucket hlookup).level_expired hexpired]

/-! ### Any stretch of time -/

/-- The limiter meters each address. -/
def meter (R : Type) [Field R] [LinearOrder R] [IsStrictOrderedRing R] (a : Address) :
    Meter limiterStep LimiterCall.time (allows a) HasRoomFor (60 : R) 10 where
  Valid := RateLimiter.Sound
  level := fun l t => l.level (makeKey a) t
  rate_nonneg := by norm_num
  burst_nonneg := by norm_num
  later := Sound.later
  nonneg := fun h => h.level_nonneg (makeKey a)
  full := fun {l t} _ => l.level_le (makeKey a) t
  rises := fun {l _ _} _ ht => l.level_rises (makeKey a) ht
  valid_step := by
    intro l call h hroom
    cases call with
    | allow addr now => exact h.allow hroom
    | cleanup now => exact h.cleanup
  falls := by
    intro l call h hroom
    cases call with
    | allow addr now => exact le_of_eq (h.level_allow hroom a)
    | cleanup now =>
      have hlevel : (limiterStep l (.cleanup now)).level (makeKey a) now =
          l.level (makeKey a) now := h.level_cleanup (makeKey a)
      have hnot : allows a l (.cleanup now) ≠ true := Bool.false_ne_true
      rw [if_neg hnot, add_zero]
      exact le_of_eq hlevel

end RateLimiter

/-- **No address gets more than 10 packets, and 60 for each second, through in any stretch of
time**, as long as every new address finds room in the table. -/
theorem rate_limit_holds [IsStrictOrderedRing R] (calls : List (LimiterCall R))
    (hordered : calls.Pairwise fun x y => x.time ≤ y.time)
    (hroom : Along limiterStep HasRoomFor ⟨.clear⟩ calls) (a : Address) {t₁ t₂ : R}
    (ht : t₁ ≤ t₂) :
    (allowedIn a t₁ t₂ ⟨.clear⟩ calls : R) ≤ 10 + 60 * (t₂ - t₁) :=
  (RateLimiter.meter R a).window ht calls (fun call _ => RateLimiter.sound_clear call.time) hroom
    hordered

/-- Eleven packets of one address at one time: ten get through. -/
theorem rate_limit_holds_eleven :
    let calls : List (LimiterCall ℚ) := List.replicate 11 (.allow toyAddress 0)
    (calls.Pairwise fun x y => x.time ≤ y.time) ∧
      Along limiterStep HasRoomFor ⟨.clear⟩ calls ∧
      allowedIn toyAddress 0 0 ⟨.clear⟩ calls = 10 ∧
      (allowedIn toyAddress 0 0 ⟨.clear⟩ calls : ℚ) ≤ 10 + 60 * (0 - 0) := by
  have hordered : (List.replicate 11 (LimiterCall.allow toyAddress (0 : ℚ))).Pairwise
      fun x y => x.time ≤ y.time := List.pairwise_replicate.mpr (Or.inr (le_refl _))
  have hroom : Along limiterStep HasRoomFor ⟨.clear⟩
      (List.replicate 11 (LimiterCall.allow toyAddress (0 : ℚ))) := by decide +kernel
  exact ⟨hordered, hroom, by decide +kernel,
    rate_limit_holds _ hordered hroom toyAddress (le_refl 0)⟩

/-! ### A full table -/

/-- One of many sources. -/
def source (i : Nat) : Address := { toyAddress with port := i.toUInt16 }

/-- A packet of each of the first `n`. -/
def firstSources (n : Nat) : List (LimiterCall ℚ) :=
  (List.range n).map fun i => .allow (source i) 0

/-- The port can be read off the key. -/
theorem makeKey_port (addr : Address) :
    (makeKey addr).bytes[17].toNat = addr.port.toNat % 256 ∧
      (makeKey addr).bytes[18].toNat = addr.port.toNat / 256 := by
  have hlen := addressDataLen_le addr
  have hport := addr.port.toNat_lt
  have hlow : ¬ 17 < 1 + addressDataLen addr := by omega
  have hhigh : ¬ 18 < 1 + addressDataLen addr := by omega
  constructor
  · simp [makeKey, hlow]
  · simp [makeKey, hhigh]
    omega

theorem source_inj (i : Nat) (hi : i < u16Size) (j : Nat) (hj : j < u16Size)
    (h : rawBytes (makeKey (source i)) = rawBytes (makeKey (source j))) : i = j := by
  have hkey := rawBytes_addressKey.mp h
  obtain ⟨hlow, hhigh⟩ := makeKey_port (source i)
  obtain ⟨hlow', hhigh'⟩ := makeKey_port (source j)
  rw [hkey, hlow'] at hlow
  rw [hkey, hhigh'] at hhigh
  have hport : ∀ k < u16Size, (source k).port.toNat = k := fun k hk => Nat.mod_eq_of_lt hk
  rw [hport i hi, hport j hj] at hlow hhigh
  omega

theorem filled_firstSources {n : Nat} (hn : n ≤ 4096) :
    FilledWith fnv1a (fun i => makeKey (source i)) n
      (run limiterStep ⟨.clear⟩ (firstSources n)).buckets := by
  induction n with
  | zero => exact filledWith_clear fnv1a _
  | succ n ih =>
    have hfilled := ih (by omega)
    have hu16 : 4096 < u16Size := by decide
    have hnew := hfilled.find_eq_none source_inj (Nat.le_refl n) (by omega)
    rw [firstSources, List.range_succ, List.map_append, List.map_singleton, run_append, run_cons,
      run_nil, limiterStep, RateLimiter.allow, ← firstSources, hnew]
    exact hfilled.insert source_inj (by omega) (by omega) _

/-- A source the full table does not know is let through, and the table stays as it is. -/
theorem allow_full {l : RateLimiter ℚ}
    (h : FilledWith fnv1a (fun i => makeKey (source i)) 4096 l.buckets) {i : Nat} (hi : 4096 ≤ i)
    (hi' : i < u16Size) (t : ℚ) : l.allow (source i) t = (true, l) := by
  rw [RateLimiter.allow, h.find_eq_none source_inj hi hi', h.insert_full source_inj hi hi']

theorem allowedIn_full {l : RateLimiter ℚ}
    (h : FilledWith fnv1a (fun i => makeKey (source i)) 4096 l.buckets) {i : Nat} (hi : 4096 ≤ i)
    (hi' : i < u16Size) (n : Nat) :
    allowedIn (source i) 0 0 l (List.replicate n (.allow (source i) 0)) = n := by
  have hallow := allow_full h hi hi' 0
  have hallows : allows (source i) l (.allow (source i) 0) = true := by
    rw [allows, decide_eq_true rfl, hallow, Bool.true_and]
  have hstep : limiterStep l (.allow (source i) 0) = l := by rw [limiterStep, hallow]
  induction n with
  | zero => rfl
  | succ n ih =>
    have hin : (0 : ℚ) ≤ (LimiterCall.allow (source i) (0 : ℚ)).time ∧
        (LimiterCall.allow (source i) (0 : ℚ)).time ≤ 0 ∧
        allows (source i) l (.allow (source i) 0) = true :=
      ⟨le_refl _, le_refl _, hallows⟩
    rw [allowedIn] at ih
    rw [allowedIn, List.replicate_succ, takenIn, if_pos hin, hstep, ih, Nat.add_comm]

/-- After a packet of each of 4096 other sources, all eleven packets of a further one get
through at one time. -/
theorem full_table_lifts_limit :
    let calls := firstSources 4096 ++ List.replicate 11 (.allow (source 5000) 0)
    (calls.Pairwise fun x y => x.time ≤ y.time) ∧
      ¬ (allowedIn (source 5000) 0 0 ⟨.clear⟩ calls : ℚ) ≤ 10 + 60 * (0 - 0) := by
  intro calls
  have htime : ∀ call ∈ calls, call.time = 0 := by
    intro call hcall
    rcases List.mem_append.mp hcall with hfirst | hlast
    · obtain ⟨i, -, rfl⟩ := List.mem_map.mp hfirst
      rfl
    · rw [List.eq_of_mem_replicate hlast]
      rfl
  refine ⟨List.pairwise_of_forall_mem_list ?_, ?_⟩
  · intro x hx y hy
    rw [htime x hx, htime y hy]
  · have hlast := allowedIn_full (filled_firstSources (Nat.le_refl 4096)) (i := 5000) (by decide)
      (by decide) 11
    have hcount : 11 ≤ allowedIn (source 5000) 0 0 ⟨.clear⟩ calls := by
      rw [allowedIn] at hlast
      rw [allowedIn, takenIn_append, hlast]
      exact Nat.le_add_left 11 _
    have hmore : (11 : ℚ) ≤ (allowedIn (source 5000) 0 0 ⟨.clear⟩ calls : ℚ) := by
      exact_mod_cast hcount
    intro hle
    linarith

end Netudp
