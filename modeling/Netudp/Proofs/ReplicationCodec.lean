/-
What a replication update carries.

Deserializing what was serialized gives the receiver the sender's value of every property
in the mask that is not quantized, and leaves the other properties as they were.  The
value loops of the two functions walk over the schema side by side; what is read later lies
behind what was read before, which is what the induction over the schema carries.

`add_prop` does not check that a property that is quantized has the size of its type, which
is what the codec takes from the buffer and puts there.  What it puts there has to stay
within the properties of the mask (`Confined`).  The functions that add a property of a type
see to the size, so a schema that is `Built` by them is `Typed`, and `Coded` and `Confined`
with it.
-/
import Netudp.Lib.Fields
import Netudp.Replication.Replicate

namespace Netudp

open Lib

/-! ### Schemas -/

/-- The property has the size of its type. -/
def PropDesc.sized (p : PropDesc) : Prop :=
  match p.type with
  | .u8 => p.rawSize = 1
  | .u16 => p.rawSize = 2
  | .i32 => p.rawSize = 4
  | .f32 => p.rawSize = 4
  | .vec3 => p.rawSize = 12
  | .quat => p.rawSize = 16
  | .blob => p.rawSize = p.blobCapacity

/-- Every property has the size of its type. -/
def Schema.Typed (s : Schema) : Prop := ∀ p ∈ s.props, p.sized

/-- The bytes the codec takes from the buffer for the property, and puts there. -/
def PropDesc.valueSize (p : PropDesc) : Nat :=
  if p.has repQuantize then
    match p.type with
    | .vec3 => 12
    | .quat => 16
    | .f32 => 4
    | _ => p.rawSize
  else p.rawSize

/-- The codec keeps to the range of every property. -/
def Schema.Coded (s : Schema) : Prop := ∀ p ∈ s.props, p.valueSize = p.rawSize

/-- What the codec puts in the buffer for the properties of the set belongs to properties of the
set. -/
def Schema.Confined (s : Schema) (sent : Nat → Prop) : Prop :=
  ∀ i p, s.props[i]? = some p → sent i → ∀ pos, p.offset ≤ pos → pos < p.offset + p.valueSize →
    ∃ j q, s.props[j]? = some q ∧ sent j ∧ q.offset ≤ pos ∧ pos < q.offset + q.rawSize

theorem Schema.Coded.confined {s : Schema} (h : s.Coded) (sent : Nat → Prop) :
    s.Confined sent := by
  intro i p hp hi pos hlo hhi
  rw [h p (List.mem_of_getElem? hp)] at hhi
  exact ⟨i, p, hp, hi, hlo, hhi⟩

theorem PropDesc.valueSize_of_plain {p : PropDesc} (h : p.quantized = false) :
    p.valueSize = p.rawSize := by
  unfold PropDesc.valueSize
  split
  · rename_i hquant
    cases htype : p.type <;> simp_all [PropDesc.quantized]
  · rfl

theorem PropDesc.valueSize_le (p : PropDesc) : p.valueSize ≤ p.rawSize + 16 := by
  unfold PropDesc.valueSize
  split
  · split <;> omega
  · omega

theorem PropDesc.sized.valueSize {p : PropDesc} (h : p.sized) : p.valueSize = p.rawSize := by
  unfold PropDesc.sized at h
  unfold PropDesc.valueSize
  split
  · cases htype : p.type <;> simp_all
  · rfl

theorem Schema.Typed.coded {s : Schema} (h : s.Typed) : s.Coded :=
  fun p hp => (h p hp).valueSize

/-- The schemas that calls of `netudp_schema_add_*` make. -/
inductive Schema.Built : Schema → Prop
  | empty : Built .empty
  | u8 {s s' : Schema} {flags : RepFlags} (h : Built s) (hadd : s.addU8 flags = some s') : Built s'
  | u16 {s s' : Schema} {flags : RepFlags} (h : Built s) (hadd : s.addU16 flags = some s') :
      Built s'
  | i32 {s s' : Schema} {flags : RepFlags} (h : Built s) (hadd : s.addI32 flags = some s') :
      Built s'
  | f32 {s s' : Schema} {flags : RepFlags} (h : Built s) (hadd : s.addF32 flags = some s') :
      Built s'
  | vec3 {s s' : Schema} {flags : RepFlags} (h : Built s) (hadd : s.addVec3 flags = some s') :
      Built s'
  | quat {s s' : Schema} {flags : RepFlags} (h : Built s) (hadd : s.addQuat flags = some s') :
      Built s'
  | blob {s s' : Schema} {maxBytes : Nat} {flags : RepFlags} (h : Built s)
      (hadd : s.addBlob maxBytes flags = some s') : Built s'

theorem Schema.Typed.addProp {s s' : Schema} {type : PropType} {flags : RepFlags}
    {rawSize blobCap : Nat} (h : s.Typed) (hadd : s.addProp type flags rawSize blobCap = some s')
    (hsized : (⟨type, flags, rawSize, s.valueBufferSize, blobCap⟩ : PropDesc).sized) :
    s'.Typed := by
  unfold Schema.addProp at hadd
  split at hadd
  · obtain rfl := Option.some.inj hadd
    intro p hp
    rcases List.mem_append.mp hp with hold | hnew
    · exact h p hold
    · rw [List.mem_singleton.mp hnew]
      exact hsized
  · cases hadd

theorem Schema.Built.typed {s : Schema} (h : s.Built) : s.Typed := by
  induction h with
  | empty =>
    intro p hp
    cases hp
  | u8 _ hadd ih => exact ih.addProp hadd rfl
  | u16 _ hadd ih => exact ih.addProp hadd rfl
  | i32 _ hadd ih => exact ih.addProp hadd rfl
  | f32 _ hadd ih => exact ih.addProp hadd rfl
  | vec3 _ hadd ih => exact ih.addProp hadd rfl
  | quat _ hadd ih => exact ih.addProp hadd rfl
  | blob _ hadd ih =>
    unfold Schema.addBlob at hadd
    split at hadd
    · cases hadd
    · exact ih.addProp hadd rfl

theorem laidOut_range {props : List PropDesc} {start stop : Nat} (h : LaidOut props start stop) :
    start ≤ stop ∧ ∀ (j : Nat) (p : PropDesc), props[j]? = some p →
      start ≤ p.offset ∧ p.offset + p.rawSize ≤ stop := by
  induction props generalizing start with
  | nil =>
    obtain rfl : start = stop := h
    refine ⟨Nat.le_refl _, ?_⟩
    intro j p hp
    cases hp
  | cons q rest ih =>
    obtain ⟨hoffset, hrest⟩ := h
    obtain ⟨hle, hinside⟩ := ih hrest
    refine ⟨by omega, ?_⟩
    intro j p hp
    cases j with
    | zero =>
      obtain rfl := Option.some.inj hp
      omega
    | succ j =>
      have hin := hinside j p hp
      omega

theorem laidOut_apart {props : List PropDesc} {start stop : Nat} (h : LaidOut props start stop)
    {i j : Nat} {p q : PropDesc} (hp : props[i]? = some p) (hq : props[j]? = some q)
    (hij : i < j) : p.offset + p.rawSize ≤ q.offset := by
  induction props generalizing start i j with
  | nil => cases hp
  | cons r rest ih =>
    obtain ⟨hoffset, hrest⟩ := h
    obtain ⟨j, rfl⟩ : ∃ k, j = k + 1 := ⟨j - 1, by omega⟩
    cases i with
    | zero =>
      obtain rfl := Option.some.inj hp
      have hin := (laidOut_range hrest).2 j q hq
      omega
    | succ i => exact ih hrest hp hq (by omega)

theorem validProp_some {e : Entity} {idx : Nat} {expected : PropType} {p : PropDesc}
    (h : e.validProp idx expected = some p) :
    e.schema.props[idx]? = some p ∧ p.type = expected := by
  unfold Entity.validProp at h
  split at h
  · cases h
  · rename_i q hq
    split at h
    · rename_i htype
      obtain rfl := Option.some.inj h
      exact ⟨hq, htype⟩
    · cases h

/-- A setter that is called with the size of its type writes inside its property. -/
theorem setValue_cases (e : Entity) (same : Bytes → Bytes → Bool) (expected : PropType)
    (idx : Nat) (val : Bytes)
    (hlen : ∀ p : PropDesc, p.sized → p.type = expected → val.length ≤ p.rawSize) :
    (e.setValue same expected idx val).2 = e ∨
      ∃ i p v, e.schema.props[i]? = some p ∧ (p.sized → v.length ≤ p.rawSize) ∧
        (e.setValue same expected idx val).2 = e.store i p v := by
  unfold Entity.setValue
  cases hvalid : e.validProp idx expected with
  | none => exact Or.inl rfl
  | some p =>
    obtain ⟨hp, htype⟩ := validProp_some hvalid
    simp only
    split
    · exact Or.inl rfl
    · exact Or.inr ⟨idx, p, val, hp, fun hsized => hlen p hsized htype, rfl⟩

/-- **A setter changes nothing or stores a value of its property.** -/
theorem set_cases (e : Entity) (call : SetCall) :
    (e.set call).2 = e ∨
      ∃ idx p val, e.schema.props[idx]? = some p ∧ (p.sized → val.length ≤ p.rawSize) ∧
        (e.set call).2 = e.store idx p val := by
  cases call with
  | blob idx data =>
    simp only [Entity.set, Entity.setBlob]
    cases hvalid : e.validProp idx .blob with
    | none => exact Or.inl rfl
    | some p =>
      obtain ⟨hp, htype⟩ := validProp_some hvalid
      simp only
      split
      · exact Or.inl rfl
      split
      · exact Or.inl rfl
      · refine Or.inr ⟨idx, p, data, hp, fun hsized => ?_, rfl⟩
        simp [PropDesc.sized, htype] at hsized
        omega
  -- Every other setter has the size of its type.
  | _ =>
    refine setValue_cases e _ _ _ _ ?_
    intro p hsized htype
    simp [PropDesc.sized, htype] at hsized
    simp [hsized]

/-! ### Varints -/

theorem or_shiftLeft_mod {result shift low : Nat} (hresult : result < 2 ^ shift)
    (hlow : low * 2 ^ shift < 2 ^ 64) :
    result ||| low <<< shift % 2 ^ 64 = result + low * 2 ^ shift := by
  rw [Nat.mod_eq_of_lt (by rwa [Nat.shiftLeft_eq]), or_shiftLeft hresult]

/-- A byte without the high bit ends the number. -/
theorem varintDecodeFrom_last {low shift result : Nat} (hsmall : low < 128)
    (hresult : result < 2 ^ shift) (hlow : low * 2 ^ shift < 2 ^ 64) (hshift : shift < 64)
    (pos : Nat) (rest : Bytes) :
    varintDecodeFrom shift result pos (UInt8.ofNat low :: rest)
      = some (result + low * 2 ^ shift, pos + 1) := by
  have hbyte : (UInt8.ofNat low).toNat = low := by
    rw [UInt8.toNat_ofNat']
    omega
  simp only [varintDecodeFrom, hbyte]
  rw [if_neg (by omega), if_pos hsmall, Nat.mod_eq_of_lt hsmall, or_shiftLeft_mod hresult hlow]

theorem varintDecodeFrom_more {low shift result : Nat} (hsmall : low < 128)
    (hresult : result < 2 ^ shift) (hlow : low * 2 ^ shift < 2 ^ 64) (hshift : shift < 64)
    (pos : Nat) (rest : Bytes) :
    varintDecodeFrom shift result pos (UInt8.ofNat (low + 128) :: rest)
      = varintDecodeFrom (shift + 7) (result + low * 2 ^ shift) (pos + 1) rest := by
  have hbyte : (UInt8.ofNat (low + 128)).toNat = low + 128 := by
    rw [UInt8.toNat_ofNat']
    omega
  have hmod : (low + 128) % 128 = low := by omega
  simp only [varintDecodeFrom, hbyte]
  rw [if_neg (by omega), if_neg (by omega), hmod, or_shiftLeft_mod hresult hlow]

/-- A value of at most 64 bits behind `shift` bits that are known already. -/
theorem varintDecodeFrom_encode (val : Nat) :
    ∀ (fuel shift result pos : Nat) (rest : Bytes), val < 128 ^ (fuel + 1) →
      result < 2 ^ shift → val * 2 ^ shift < 2 ^ 64 → shift < 64 →
      varintDecodeFrom shift result pos (varintEncodeFrom (fuel + 1) val ++ rest)
        = some (result + val * 2 ^ shift, pos + (varintEncodeFrom (fuel + 1) val).length) := by
  induction val using Nat.strong_induction_on with
  | _ val ih =>
    intro fuel shift result pos rest hval hresult hfits hshift
    rw [varintEncodeFrom]
    by_cases hlast : val < 128
    · rw [if_pos (by omega), Nat.mod_eq_of_lt hlast, List.singleton_append,
        varintDecodeFrom_last hlast hresult hfits hshift, List.length_singleton]
    · obtain ⟨fuel, rfl⟩ : ∃ n, fuel = n + 1 := by
        refine Nat.exists_eq_succ_of_ne_zero fun hzero => ?_
        rw [hzero] at hval
        omega
      have hsmall : val % 128 < 128 := by omega
      have hlow : val % 128 * 2 ^ shift < 2 ^ 64 :=
        Nat.lt_of_le_of_lt (Nat.mul_le_mul_right _ (Nat.mod_le _ _)) hfits
      have hmore : shift + 7 < 64 := by
        have hle : 2 ^ (shift + 7) ≤ val * 2 ^ shift := by
          rw [Nat.pow_add, Nat.mul_comm]
          exact Nat.mul_le_mul_right _ (by omega)
        exact (Nat.pow_lt_pow_iff_right (by omega)).mp (Nat.lt_of_le_of_lt hle hfits)
      have hsplit : result + val % 128 * 2 ^ shift + val / 128 * 2 ^ (shift + 7)
          = result + val * 2 ^ shift := add_field_rest result val shift 7
      have hquot : val / 128 < 128 ^ (fuel + 1) := by
        rw [Nat.div_lt_iff_lt_mul (by omega), ← Nat.pow_succ]
        exact hval
      rw [if_neg (by omega), List.cons_append, varintDecodeFrom_more hsmall hresult hlow hshift,
        ih _ (by omega) _ _ _ _ _ hquot (add_field_lt (w := 7) hresult hsmall) (by omega) hmore,
        hsplit, List.length_cons, Nat.add_assoc, Nat.add_comm 1]

/-- **A varint of 64 bits decodes to its value**, whatever follows it. -/
theorem varintDecode_encode {val : Nat} (h : val < 2 ^ 64) (rest : Bytes) :
    varintDecode (varintEncode val ++ rest) = some (val, (varintEncode val).length) := by
  have hdecode := varintDecodeFrom_encode val 9 0 0 0 rest
    (Nat.lt_of_lt_of_le h (by norm_num)) (by norm_num) (by simpa using h) (by omega)
  simpa [varintDecode, varintEncode] using hdecode

theorem length_varintEncodeFrom (fuel val : Nat) :
    (varintEncodeFrom (fuel + 1) val).length ≤ fuel + 1 ∧
      0 < (varintEncodeFrom (fuel + 1) val).length := by
  induction fuel generalizing val with
  | zero =>
    rw [varintEncodeFrom]
    split
    · simp
    · simp [varintEncodeFrom]
  | succ fuel ih =>
    rw [varintEncodeFrom]
    split
    · simp
    · have hrest := (ih (val / 128)).1
      simp only [List.length_cons]
      omega

/-! ### The mask -/

theorem getLsbD_initialMask {n : Nat} (h : n < 64) (i : Nat) :
    (initialMask n).getLsbD i = decide (i < n) := by
  have hnat : (initialMask n).toNat = 2 ^ n - 1 := by
    have hpow : 2 ^ n < 2 ^ 64 := Nat.pow_lt_pow_right (by omega) h
    have hpos : 0 < 2 ^ n := Nat.two_pow_pos n
    rw [initialMask, Nat.mod_eq_of_lt h, BitVec.toNat_sub, BitVec.toNat_twoPow,
      Nat.mod_eq_of_lt hpow, show (1 : BitVec 64).toNat = 1 from rfl]
    omega
  rw [BitVec.getLsbD, hnat, Nat.testBit_two_pow_sub_one]

-- With all 64 properties the shift is by the width, and the mask of a snapshot is empty.
example : initialMask 64 = 0 := by decide

theorem getLsbD_clear_of_ne (mask : BitVec 64) {i j : Nat} (h : i ≠ j) :
    (mask &&& ~~~BitVec.twoPow 64 i).getLsbD j = mask.getLsbD j := by
  by_cases hj : j < 64
  · simp [hj, h.symm]
  · simp [BitVec.getLsbD_of_ge _ _ (Nat.le_of_not_lt hj)]

/-- A bit goes if its property keeps itself from the client. -/
theorem getLsbD_filterMask (owner : Option Nat) (targetClient : Nat) (isInitial : Bool)
    (props : List PropDesc) :
    ∀ (i : Nat) (mask : BitVec 64) (j : Nat), i + props.length ≤ 64 →
      (filterMask owner targetClient isInitial props i mask).getLsbD j =
        (mask.getLsbD j && !(decide (i ≤ j) &&
          props[j - i]?.any (·.excludes owner targetClient isInitial))) := by
  induction props with
  | nil =>
    intro i mask j _
    simp [filterMask]
  | cons p rest ih =>
    intro i mask j hlen
    rw [List.length_cons] at hlen
    rw [filterMask, ih _ _ _ (by omega)]
    rcases Nat.lt_trichotomy j i with hlt | rfl | hgt
    · -- A bit below the walk stays.
      have hkeep := getLsbD_clear_of_ne mask (Nat.ne_of_gt hlt)
      have h1 : ¬ i + 1 ≤ j := by omega
      have h2 : ¬ i ≤ j := by omega
      split <;> simp [h1, h2, hkeep]
    · have h1 : ¬ j + 1 ≤ j := by omega
      have hj : j < 64 := by omega
      by_cases hgone : mask.getLsbD j && p.excludes owner targetClient isInitial
      · rw [if_pos hgone]
        simp only [Bool.and_eq_true] at hgone
        simp [h1, hj, hgone.2]
      · rw [if_neg hgone]
        cases hm : mask.getLsbD j with
        | false => simp
        | true => simp_all
    · have hkeep := getLsbD_clear_of_ne mask (Nat.ne_of_lt hgt)
      have h1 : i + 1 ≤ j := hgt
      have h2 : i ≤ j := by omega
      have hindex : (p :: rest)[j - i]? = rest[j - (i + 1)]? := by
        rw [show j - i = j - (i + 1) + 1 by omega, List.getElem?_cons_succ]
      rw [hindex]
      split <;> simp [h1, h2, hkeep]

/-! ### One property -/

section Codec

variable {Q : Quantizers}

theorem writeProp_length (p : PropDesc) (val : Bytes) (cap : Nat) (hcap : p.valueSize ≤ cap) :
    ∃ bytes, writeProp Q p val cap = some bytes ∧ bytes.length ≤ p.valueSize := by
  unfold PropDesc.valueSize at hcap ⊢
  unfold writeProp
  have hraw : p.rawSize ≤ cap →
      ∃ bytes, writeRaw p val cap = some bytes ∧ bytes.length ≤ p.rawSize := by
    intro hle
    exact ⟨_, if_neg (by omega), List.length_take_le _ _⟩
  have hcoded : ∀ {n k x : Nat}, n ≤ cap → k ≤ n →
      ∃ bytes, (if cap < k then none else some (leBytes k x)) = some bytes ∧ bytes.length ≤ n := by
    intro n k x hle hk
    exact ⟨_, if_neg (by omega), by rw [length_leBytes]; exact hk⟩
  by_cases hquant : p.has repQuantize = true
  · simp only [hquant, if_true] at hcap ⊢
    cases htype : p.type with
    | vec3 | quat | f32 =>
      simp only [htype] at hcap ⊢
      exact hcoded hcap (by omega)
    | _ =>
      simp only [htype] at hcap ⊢
      exact hraw hcap
  · rw [if_neg hquant] at hcap
    rw [if_neg hquant, if_neg hquant]
    exact hraw hcap

theorem readProp_length {p : PropDesc} {wire val : Bytes} {n : Nat}
    (h : readProp Q p wire = some (n, val)) : val.length = p.valueSize := by
  have hcoded : ∀ {k size : Nat} {out : Bytes}, out.length = size →
      (if wire.length < k then none else some (k, out)) = some (n, val) → val.length = size := by
    intro k size out hout hread
    split at hread
    · cases hread
    · obtain ⟨-, rfl⟩ := Prod.mk.inj (Option.some.inj hread)
      exact hout
  have hraw : readRaw p wire = some (n, val) → val.length = p.rawSize := by
    intro hread
    rw [readRaw] at hread
    split at hread
    · cases hread
    · obtain ⟨rfl, rfl⟩ := Prod.mk.inj (Option.some.inj hread)
      rw [List.length_take]
      omega
  unfold PropDesc.valueSize
  unfold readProp at h
  split at h
  · rename_i hquant
    rw [if_pos hquant]
    cases htype : p.type with
    | vec3 | quat =>
      simp only [htype] at h
      exact hcoded Vector.length_toList h
    | f32 =>
      simp only [htype] at h
      exact hcoded (length_leBytes 4 _) h
    | _ =>
      simp only [htype] at h
      exact hraw h
  · rename_i hquant
    rw [if_neg hquant]
    exact hraw h

/-- What was written is read whole, and unchanged unless it was quantized. -/
theorem readProp_writeProp {p : PropDesc} {val bytes : Bytes} {cap : Nat}
    (hval : p.rawSize ≤ val.length) (h : writeProp Q p val cap = some bytes) (rest : Bytes) :
    ∃ out, readProp Q p (bytes ++ rest) = some (bytes.length, out) ∧
      (p.quantized = false → out = val.take p.rawSize) := by
  have hraw : writeRaw p val cap = some bytes →
      readRaw p (bytes ++ rest) = some (bytes.length, val.take p.rawSize) := by
    intro hwrite
    rw [writeRaw] at hwrite
    split at hwrite
    · cases hwrite
    · obtain rfl := Option.some.inj hwrite
      have hlen : (val.take p.rawSize).length = p.rawSize := by
        rw [List.length_take]
        omega
      rw [readRaw, if_neg (by rw [List.length_append]; omega), List.take_left' hlen, hlen]
  have hcoded : ∀ {k x : Nat} {out : Bytes}, p.quantized = true →
      (if cap < k then none else some (leBytes k x)) = some bytes →
      ∃ read, (if (bytes ++ rest).length < k then none else some (k, out))
          = some (bytes.length, read) ∧ (p.quantized = false → read = val.take p.rawSize) := by
    intro k x out hquant hwrite
    split at hwrite
    · cases hwrite
    · obtain rfl := Option.some.inj hwrite
      have hlen : (leBytes k x).length = k := length_leBytes k x
      refine ⟨out, ?_, ?_⟩
      · rw [if_neg (by rw [List.length_append]; omega), hlen]
      · intro hplain
        rw [hquant] at hplain
        cases hplain
  rw [writeProp] at h
  rw [readProp]
  split at h
  · rename_i hquant
    rw [if_pos hquant]
    split at h
    · rename_i htype
      exact hcoded (by simp [PropDesc.quantized, hquant, htype]) h
    · rename_i htype
      exact hcoded (by simp [PropDesc.quantized, hquant, htype]) h
    · rename_i htype
      exact hcoded (by simp [PropDesc.quantized, hquant, htype]) h
    · exact ⟨_, hraw h, fun _ => rfl⟩
  · rename_i hquant
    rw [if_neg hquant]
    exact ⟨_, hraw h, fun _ => rfl⟩

/-! ### All properties -/

theorem writeProps_some (mask : BitVec 64) (values : Bytes) (props : List PropDesc) :
    ∀ i cap : Nat, (props.map PropDesc.valueSize).sum ≤ cap →
      ∃ bytes, writeProps Q values mask props i cap = some bytes := by
  induction props with
  | nil => exact fun i cap _ => ⟨[], rfl⟩
  | cons p rest ih =>
    intro i cap hcap
    rw [List.map_cons, List.sum_cons] at hcap
    rw [writeProps]
    split
    · obtain ⟨bytes, hwrite, hlen⟩ := writeProp_length (Q := Q) p (values.drop p.offset) cap
        (by omega)
      obtain ⟨more, hmore⟩ := ih (i + 1) (cap - bytes.length) (by omega)
      rw [hwrite]
      simp only [hmore, Option.map_some]
      exact ⟨_, rfl⟩
    · exact ih (i + 1) cap (by omega)

/-- What is read for the mask, from property `i` on, goes to the first `n` bytes. -/
def ReadsInto (mask : BitVec 64) (props : List PropDesc) (i n : Nat) : Prop :=
  ∀ j p, props[j]? = some p → mask.getLsbD (i + j) = true → p.offset + p.valueSize ≤ n

theorem ReadsInto.rest {mask : BitVec 64} {p : PropDesc} {props : List PropDesc} {i n : Nat}
    (h : ReadsInto mask (p :: props) i n) : ReadsInto mask props (i + 1) n := by
  intro j q hq hbit
  exact h (j + 1) q hq (by rwa [← Nat.add_assoc, Nat.add_right_comm])

/-- Reading changes nothing outside the values of the mask, and no length. -/
theorem readProps_frame (mask : BitVec 64) (props : List PropDesc) :
    ∀ (i : Nat) (wire old : Bytes), ReadsInto mask props i old.length →
      (readProps Q mask props i wire old).2.length = old.length ∧
        ∀ pos, (∀ j p, props[j]? = some p → mask.getLsbD (i + j) = true →
            pos < p.offset ∨ p.offset + p.valueSize ≤ pos) →
          (readProps Q mask props i wire old).2[pos]? = old[pos]? := by
  induction props with
  | nil => exact fun i wire old _ => ⟨rfl, fun _ _ => rfl⟩
  | cons p rest ih =>
    intro i wire old hinto
    have hindex : ∀ j, i + (j + 1) = i + 1 + j := fun j => by omega
    rw [readProps]
    split
    · rename_i hbit
      cases hread : readProp Q p wire with
      | none => exact ⟨rfl, fun _ _ => rfl⟩
      | some out =>
        obtain ⟨n, val⟩ := out
        have hval := readProp_length hread
        have hin := hinto 0 p rfl hbit
        have hlen : (writeAt old p.offset val).length = old.length :=
          length_writeAt (by omega)
        obtain ⟨hlength, hsame⟩ := ih (i + 1) (wire.drop n) (writeAt old p.offset val)
          (by rw [hlen]; exact hinto.rest)
        refine ⟨hlength.trans hlen, fun pos hout => (hsame pos fun j q hq hset => ?_).trans ?_⟩
        · exact hout (j + 1) q hq (by rwa [hindex])
        · refine getElem?_writeAt_of_outside ?_ (by omega)
          have hself := hout 0 p rfl hbit
          omega
    · obtain ⟨hlength, hsame⟩ := ih (i + 1) wire old hinto.rest
      exact ⟨hlength, fun pos hout => hsame pos fun j q hq hset =>
        hout (j + 1) q hq (by rwa [hindex])⟩

/-- Where a value of the mask goes, what was there before does not matter. -/
theorem readProps_covered (mask : BitVec 64) (props : List PropDesc) (pos : Nat) :
    ∀ (i : Nat) (wire old old' : Bytes), old'.length = old.length →
      ReadsInto mask props i old.length → (readProps Q mask props i wire old).1 ≠ none →
      (old[pos]? = old'[pos]? ∨ ∃ j p, props[j]? = some p ∧ mask.getLsbD (i + j) = true ∧
        p.offset ≤ pos ∧ pos < p.offset + p.valueSize) →
      (readProps Q mask props i wire old).2[pos]? = (readProps Q mask props i wire old').2[pos]? := by
  induction props with
  | nil =>
    rintro i wire old old' - - - (hsame | ⟨j, p, hp, -⟩)
    · exact hsame
    · cases hp
  | cons p rest ih =>
    intro i wire old old' hlen hinto hdone hwhere
    have hlater : ∀ {j q}, mask.getLsbD (i + (j + 1)) = true → rest[j]? = some q →
        mask.getLsbD (i + 1 + j) = true := fun hset _ => by
      rwa [← Nat.add_assoc, Nat.add_right_comm] at hset
    rw [readProps] at hdone
    rw [readProps, readProps]
    by_cases hbit : mask.getLsbD i = true
    · rw [if_pos hbit] at hdone ⊢
      rw [if_pos hbit]
      cases hread : readProp Q p wire with
      | none => simp [hread] at hdone
      | some out =>
        obtain ⟨n, val⟩ := out
        have hval := readProp_length hread
        have hin := hinto 0 p rfl hbit
        have hlength : ∀ buf : Bytes, buf.length = old.length →
            (writeAt buf p.offset val).length = old.length := fun buf hbuf =>
          (length_writeAt (by omega)).trans hbuf
        simp only [hread, ne_eq, Option.map_eq_none_iff] at hdone
        refine ih (i + 1) _ _ _ ((hlength old' hlen).trans (hlength old rfl).symm)
          (by rw [hlength old rfl]; exact hinto.rest) hdone ?_
        by_cases hhere : p.offset ≤ pos ∧ pos < p.offset + p.valueSize
        · left
          rw [getElem?_writeAt_inside hhere.1 (by omega) (by omega),
            getElem?_writeAt_inside hhere.1 (by omega) (by omega)]
        · rcases hwhere with hsame | ⟨j, q, hq, hset, hcovers⟩
          · left
            rw [getElem?_writeAt_of_outside (by omega) (by omega),
              getElem?_writeAt_of_outside (by omega) (by omega), hsame]
          · cases j with
            | zero =>
              obtain rfl := Option.some.inj hq
              exact absurd hcovers hhere
            | succ j => exact Or.inr ⟨j, q, hq, hlater hset hq, hcovers⟩
    · rw [if_neg hbit] at hdone ⊢
      rw [if_neg hbit]
      refine ih (i + 1) _ _ _ hlen hinto.rest hdone (hwhere.imp_right ?_)
      rintro ⟨j, q, hq, hset, hcovers⟩
      cases j with
      | zero => exact absurd hset hbit
      | succ j => exact ⟨j, q, hq, hlater hset hq, hcovers⟩

/-- **The loops are inverse**: reading what was written consumes all of it and yields the
values of the mask that are not quantized. -/
theorem readProps_writeProps (mask : BitVec 64) (values : Bytes) (props : List PropDesc) :
    ∀ (i start stop cap : Nat) (old bytes rest : Bytes), LaidOut props start stop →
      stop ≤ values.length → ReadsInto mask props i old.length →
      writeProps Q values mask props i cap = some bytes →
      (readProps Q mask props i (bytes ++ rest) old).1 = some bytes.length ∧
        ∀ j p, props[j]? = some p → mask.getLsbD (i + j) = true → p.quantized = false →
          readAt (readProps Q mask props i (bytes ++ rest) old).2 p.offset p.rawSize =
            readAt values p.offset p.rawSize := by
  induction props with
  | nil =>
    intro i start stop cap old bytes rest _ _ _ hwrite
    obtain rfl := Option.some.inj hwrite
    exact ⟨rfl, fun j p hp => by cases hp⟩
  | cons p props ih =>
    intro i start stop cap old bytes rest hlaid hvalues hinto hwrite
    obtain ⟨hoffset, hrest⟩ := hlaid
    obtain ⟨hstop, hbehind⟩ := laidOut_range hrest
    have hindex : ∀ j, i + (j + 1) = i + 1 + j := fun j => by omega
    rw [writeProps] at hwrite
    rw [readProps]
    by_cases hbit : mask.getLsbD i = true
    · rw [if_pos hbit] at hwrite ⊢
      cases hone : writeProp Q p (values.drop p.offset) cap with
      | none =>
        rw [hone] at hwrite
        cases hwrite
      | some first =>
        rw [hone] at hwrite
        obtain ⟨more, hmore, rfl⟩ := Option.map_eq_some_iff.mp hwrite
        obtain ⟨val, hread, hplain⟩ := readProp_writeProp
          (by rw [List.length_drop]; omega) hone (more ++ rest)
        have hval := readProp_length hread
        have hin := hinto 0 p rfl hbit
        have hlen : (writeAt old p.offset val).length = old.length :=
          length_writeAt (by omega)
        have hinto' : ReadsInto mask props (i + 1) (writeAt old p.offset val).length := by
          rw [hlen]
          exact hinto.rest
        obtain ⟨hconsumed, hsent⟩ := ih (i + 1) _ stop _ (writeAt old p.offset val) more
          rest hrest hvalues hinto' hmore
        rw [List.append_assoc, hread]
        simp only [List.drop_left' rfl, hconsumed, Option.map_some, List.length_append]
        refine ⟨trivial, fun j q hq hset hquant => ?_⟩
        cases j with
        | succ j => exact hsent j q hq (by rwa [← hindex]) hquant
        | zero =>
          -- The values read after this one go behind it.
          obtain rfl := Option.some.inj hq
          have hsize := PropDesc.valueSize_of_plain hquant
          have hself : readAt (writeAt old p.offset val) p.offset val.length = val :=
            readAt_writeAt_self (by omega)
          rw [hval, hsize] at hself
          rw [← show val = readAt values p.offset p.rawSize from hplain hquant, ← hself]
          refine readAt_congr fun k _ hk => ?_
          rw [hself]
          refine (readProps_frame mask props (i + 1) _ _ hinto').2 k fun j q hq _ => ?_
          have hafter := (hbehind j q hq).1
          omega
    · rw [if_neg hbit] at hwrite ⊢
      obtain ⟨hconsumed, hsent⟩ := ih (i + 1) _ stop cap old bytes rest hrest hvalues
        hinto.rest hwrite
      refine ⟨hconsumed, fun j q hq hset hquant => ?_⟩
      cases j with
      | zero => exact absurd hset hbit
      | succ j => exact hsent j q hq (by rwa [← hindex]) hquant

/-! ### Updates -/

theorem Schema.Confined.readsInto {s : Schema} {mask : BitVec 64}
    (h : s.Confined fun i => mask.getLsbD i = true) {n : Nat} (hn : s.valueBufferSize ≤ n) :
    ReadsInto mask s.props 0 n := by
  intro j p hp hbit
  rw [Nat.zero_add] at hbit
  have hin := (laidOut_range s.laidOut).2
  have hself := hin j p hp
  by_cases hsize : p.valueSize = 0
  · omega
  · obtain ⟨k, q, hq, -, -, hend⟩ := h j p hp hbit (p.offset + p.valueSize - 1) (by omega) (by omega)
    have hother := hin k q hq
    omega

/-- Deserializing never changes the size of the buffer. -/
theorem replicateDeserialize_length {schema : Schema} (hcoded : schema.Coded) (wire : Bytes)
    {values : Bytes} (hvalues : schema.valueBufferSize ≤ values.length) :
    (replicateDeserialize Q schema wire values).values.length = values.length := by
  rw [replicateDeserialize]
  split
  · rfl
  · cases varintDecode (wire.drop 2) with
    | none => rfl
    | some out => exact (readProps_frame _ _ _ _ _ ((hcoded.confined _).readsInto hvalues)).1

/-- An update as it is on the wire. -/
def updateHead (e : Entity) (mask : BitVec 64) : Bytes :=
  leBytes 2 e.entityId ++ varintEncode mask.toNat

theorem length_updateHead (e : Entity) (mask : BitVec 64) :
    2 < (updateHead e mask).length ∧ (updateHead e mask).length ≤ 12 := by
  have hvi := length_varintEncodeFrom 9 mask.toNat
  rw [← varintEncode] at hvi
  rw [updateHead, List.length_append, length_leBytes]
  omega

theorem Schema.Coded.sum_valueSize {s : Schema} (h : s.Coded) :
    (s.props.map PropDesc.valueSize).sum = s.valueBufferSize := by
  have hsum : ∀ (props : List PropDesc) (start stop : Nat), LaidOut props start stop →
      (∀ p ∈ props, p.valueSize = p.rawSize) →
      start + (props.map PropDesc.valueSize).sum = stop := by
    intro props
    induction props with
    | nil => exact fun start stop hlaid _ => hlaid
    | cons p rest ih =>
      intro start stop hlaid hcoded
      obtain ⟨hsize, hrest⟩ := List.forall_mem_cons.mp hcoded
      rw [List.map_cons, List.sum_cons, hsize, ← Nat.add_assoc]
      exact ih _ _ hlaid.2 hrest
  exact (Nat.zero_add _).symm.trans (hsum s.props 0 _ s.laidOut h)

theorem replicateSerialize_some {e : Entity} {cap : Nat}
    (hcap : (e.schema.props.map PropDesc.valueSize).sum + 12 ≤ cap) (targetClient : Nat)
    (isInitial : Bool) :
    ∃ wire, replicateSerialize Q e cap targetClient isInitial = some wire := by
  rw [replicateSerialize, if_neg (by omega)]
  by_cases hmask : sentMask e targetClient isInitial = 0
  · exact ⟨[], if_pos hmask⟩
  · have hhead := (length_updateHead e (sentMask e targetClient isInitial)).2
    obtain ⟨bytes, hbytes⟩ := writeProps_some (Q := Q) (sentMask e targetClient isInitial) e.values
      e.schema.props 0 (cap - (updateHead e (sentMask e targetClient isInitial)).length) (by omega)
    rw [updateHead] at hbytes
    simp only [if_neg hmask, hbytes, Option.map_some]
    exact ⟨_, rfl⟩

/-- What was serialized is the head and the values of the mask, or nothing. -/
theorem replicateSerialize_eq_some {e : Entity} {cap targetClient : Nat} {isInitial : Bool}
    {wire : Bytes} (h : replicateSerialize Q e cap targetClient isInitial = some wire) :
    let mask := sentMask e targetClient isInitial
    mask = 0 ∧ wire = [] ∨
      mask ≠ 0 ∧ ∃ bytes cap', writeProps Q e.values mask e.schema.props 0 cap' = some bytes ∧
        wire = updateHead e mask ++ bytes := by
  intro mask
  rw [replicateSerialize] at h
  split at h
  · cases h
  · simp only at h
    split at h
    · rename_i hmask
      exact Or.inl ⟨hmask, (Option.some.inj h).symm⟩
    · rename_i hmask
      obtain ⟨bytes, hbytes, rfl⟩ := Option.map_eq_some_iff.mp h
      exact Or.inr ⟨hmask, bytes, _, hbytes, rfl⟩

/-- Only an empty mask is serialized to nothing. -/
theorem replicateSerialize_nil {e : Entity} {cap targetClient : Nat} {isInitial : Bool}
    (h : replicateSerialize Q e cap targetClient isInitial = some []) :
    sentMask e targetClient isInitial = 0 := by
  rcases replicateSerialize_eq_some h with ⟨hmask, -⟩ | ⟨-, bytes, -, -, hwire⟩
  · exact hmask
  · have hlen := congrArg List.length hwire
    have hhead := (length_updateHead e (sentMask e targetClient isInitial)).1
    rw [List.length_append, List.length_nil] at hlen
    omega

theorem replicateDeserialize_head (schema : Schema) (e : Entity) (mask : BitVec 64)
    (bytes old : Bytes) :
    replicateDeserialize Q schema (updateHead e mask ++ bytes) old
      = ⟨(readProps Q mask schema.props 0 bytes old).1.map ((updateHead e mask).length + ·),
        some (e.entityId % 256 ^ 2), some mask, (readProps Q mask schema.props 0 bytes old).2⟩ := by
  have hid : (leBytes 2 e.entityId).length = 2 := length_leBytes 2 _
  have hhead := (length_updateHead e mask).1
  have hlength : (updateHead e mask).length = 2 + (varintEncode mask.toNat).length := by
    rw [updateHead, List.length_append, hid]
  have htake : (updateHead e mask ++ bytes).take 2 = leBytes 2 e.entityId := by
    rw [updateHead, List.append_assoc, List.take_left' hid]
  have hdrop : (updateHead e mask ++ bytes).drop 2 = varintEncode mask.toNat ++ bytes := by
    rw [updateHead, List.append_assoc, List.drop_left' hid]
  have hdrop' : (updateHead e mask ++ bytes).drop (2 + (varintEncode mask.toNat).length)
      = bytes := List.drop_left' hlength
  have hlen : ¬ (updateHead e mask ++ bytes).length < 3 := by
    rw [List.length_append]
    omega
  rw [replicateDeserialize, if_neg hlen, hdrop, varintDecode_encode mask.isLt]
  simp only [hdrop', htake, hlength, leNat_leBytes, BitVec.ofNat_toNat, BitVec.setWidth_eq]

/-- What reading an update for `mask` has made of the receiver's `old` values. -/
structure Carried (s : Schema) (mask : BitVec 64) (values old new : Bytes) : Prop where
  sent : ∀ i p, s.props[i]? = some p → mask.getLsbD i = true → p.quantized = false →
    readAt new p.offset p.rawSize = readAt values p.offset p.rawSize
  kept : ∀ pos, (∀ i p, s.props[i]? = some p → mask.getLsbD i = true →
    pos < p.offset ∨ p.offset + p.rawSize ≤ pos) → new[pos]? = old[pos]?

theorem Carried.kept_property {s : Schema} {mask : BitVec 64} {values old new : Bytes}
    (h : Carried s mask values old new) {i : Nat} {p : PropDesc} (hp : s.props[i]? = some p)
    (hbit : mask.getLsbD i = false) :
    readAt new p.offset p.rawSize = readAt old p.offset p.rawSize := by
  refine readAt_congr fun pos hlo hhi => h.kept pos fun j q hq hset => ?_
  rcases Nat.lt_trichotomy i j with hij | rfl | hji
  · have := laidOut_apart s.laidOut hp hq hij
    omega
  · rw [hbit] at hset
    cases hset
  · have := laidOut_apart s.laidOut hq hp hji
    omega

/-- **Deserializing what was serialized carries the sent properties over.** -/
theorem replicateDeserialize_serialize {e : Entity} {cap targetClient : Nat} {isInitial : Bool}
    (hconfined : e.schema.Confined fun i => (sentMask e targetClient isInitial).getLsbD i = true)
    (hvalues : e.schema.valueBufferSize ≤ e.values.length) {wire : Bytes}
    (hwire : replicateSerialize Q e cap targetClient isInitial = some wire) (hsome : wire ≠ [])
    {old : Bytes} (hold : e.schema.valueBufferSize ≤ old.length) :
    (replicateDeserialize Q e.schema wire old).consumed = some wire.length ∧
      Carried e.schema (sentMask e targetClient isInitial) e.values old
        (replicateDeserialize Q e.schema wire old).values := by
  rcases replicateSerialize_eq_some hwire with ⟨-, hnil⟩ | ⟨-, bytes, cap', hbytes, rfl⟩
  · exact absurd hnil hsome
  · have hinto := hconfined.readsInto hold
    obtain ⟨hconsumed, hsent⟩ := readProps_writeProps (Q := Q) _ e.values e.schema.props 0 0
      _ cap' old bytes [] e.schema.laidOut hvalues hinto hbytes
    rw [List.append_nil] at hconsumed hsent
    rw [replicateDeserialize_head]
    refine ⟨by simp only [hconsumed, Option.map_some, List.length_append], ?_, ?_⟩
    · intro i p hp hbit hquant
      exact hsent i p hp (by rwa [Nat.zero_add]) hquant
    · intro pos hout
      refine (readProps_frame _ _ _ _ _ hinto).2 pos fun i p hp hbit => ?_
      rw [Nat.zero_add] at hbit
      by_contra hin
      obtain ⟨j, q, hq, hset, hlo, hhi⟩ := hconfined i p hp hbit pos (by omega) (by omega)
      have := hout j q hq hset
      omega

end Codec

end Netudp
