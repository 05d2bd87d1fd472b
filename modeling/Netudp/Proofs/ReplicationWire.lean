/-
What an update says, and what it keeps to itself.

An update is about a set of properties: those that have changed, or all of them in an
initial snapshot, less those whose conditions keep them from the client.  The mask on the
wire is that set, the receiver gets the values of the set, and nothing else of the
receiver's buffer is touched.  What the wire says does not depend on the value of any
property outside the set.

The mask of a snapshot is computed as `(1ULL << prop_count) - 1`, which for 64 properties
is not the full mask: the shift is by the width.  So the set of a snapshot is the mask
only when there are fewer than 64 properties, and the receiver's other bytes are untouched
only when the codec puts the values of the set within the set (`Confined`).  That is all the
round trip needs.
-/
import Netudp.Proofs.ReplicationCodec

namespace Netudp

open Lib

/-! ### The set of an update -/

/-- Property `i` has changed, or the update is the initial snapshot, and its conditions do
not keep it from the client. -/
def Selected (e : Entity) (targetClient : Nat) (isInitial : Bool) (i : Nat) : Prop :=
  ∃ p, e.schema.props[i]? = some p ∧ (isInitial = true ∨ e.dirtyMask.getLsbD i = true) ∧
    p.excludes e.ownerClient targetClient isInitial = false

section Mask

variable {e : Entity} {targetClient : Nat} {isInitial : Bool}

theorem getLsbD_sentMask (i : Nat) :
    (sentMask e targetClient isInitial).getLsbD i =
      ((if isInitial then initialMask e.schema.props.length else e.dirtyMask).getLsbD i &&
        !e.schema.props[i]?.any (·.excludes e.ownerClient targetClient isInitial)) := by
  have hcount : 0 + e.schema.props.length ≤ 64 := by
    rw [Nat.zero_add]
    exact e.schema.count_le
  rw [sentMask, getLsbD_filterMask _ _ _ _ _ _ _ hcount, Nat.sub_zero]
  simp

/-- **The mask on the wire is the set.** -/
theorem getLsbD_sentMask_iff
    (hdirty : ∀ i, e.dirtyMask.getLsbD i = true → i < e.schema.props.length)
    (hinitial : isInitial = true → e.schema.props.length < 64) (i : Nat) :
    (sentMask e targetClient isInitial).getLsbD i = true ↔ Selected e targetClient isInitial i := by
  have hbase : (if isInitial then initialMask e.schema.props.length else e.dirtyMask).getLsbD i
      = true ↔ i < e.schema.props.length ∧ (isInitial = true ∨ e.dirtyMask.getLsbD i = true) := by
    cases isInitial with
    | true =>
      rw [if_pos rfl, getLsbD_initialMask (hinitial rfl), decide_eq_true_iff]
      exact ⟨fun hi => ⟨hi, Or.inl rfl⟩, fun hi => hi.1⟩
    | false =>
      rw [if_neg Bool.false_ne_true]
      exact ⟨fun hi => ⟨hdirty i hi, Or.inr hi⟩, fun hi => hi.2.resolve_left Bool.false_ne_true⟩
  rw [getLsbD_sentMask, Bool.and_eq_true_iff, hbase, Bool.not_eq_true']
  constructor
  · rintro ⟨⟨hi, hwhy⟩, hkept⟩
    rw [List.getElem?_eq_getElem hi, Option.any_some] at hkept
    exact ⟨_, List.getElem?_eq_getElem hi, hwhy, hkept⟩
  · rintro ⟨p, hp, hwhy, hkept⟩
    obtain ⟨hi, -⟩ := List.getElem?_eq_some_iff.mp hp
    rw [hp, Option.any_some]
    exact ⟨⟨hi, hwhy⟩, hkept⟩

/-- It is empty if the set is. -/
theorem sentMask_eq_zero_iff
    (hdirty : ∀ i, e.dirtyMask.getLsbD i = true → i < e.schema.props.length)
    (hinitial : isInitial = true → e.schema.props.length < 64) :
    sentMask e targetClient isInitial = 0 ↔ ∀ i, ¬ Selected e targetClient isInitial i := by
  constructor
  · intro hzero i hselected
    rw [← getLsbD_sentMask_iff hdirty hinitial i, hzero] at hselected
    exact absurd (BitVec.getLsbD_zero.symm.trans hselected) Bool.false_ne_true
  · intro hempty
    refine BitVec.eq_of_getLsbD_eq fun i _ => Eq.trans ?_ BitVec.getLsbD_zero.symm
    rw [← Bool.not_eq_true, getLsbD_sentMask_iff hdirty hinitial i]
    exact hempty i

/-- The mask of a snapshot of 64 properties is empty. -/
theorem sentMask_full (hfull : e.schema.props.length = 64) : sentMask e targetClient true = 0 := by
  refine BitVec.eq_of_getLsbD_eq fun i _ => ?_
  have hbase : initialMask 64 = 0 := by decide
  have hclear : (0 : BitVec 64).getLsbD i = false := BitVec.getLsbD_zero
  rw [getLsbD_sentMask, if_pos rfl, hfull, hbase, hclear, Bool.false_and]

/-- So an empty set has an empty mask, always. -/
theorem sentMask_of_empty
    (hdirty : ∀ i, e.dirtyMask.getLsbD i = true → i < e.schema.props.length)
    (hempty : ∀ i, ¬ Selected e targetClient isInitial i) :
    sentMask e targetClient isInitial = 0 := by
  by_cases hinitial : isInitial = true → e.schema.props.length < 64
  · exact (sentMask_eq_zero_iff hdirty hinitial).mpr hempty
  · obtain ⟨rfl, hcount⟩ := Classical.not_imp.mp hinitial
    exact sentMask_full (Nat.le_antisymm e.schema.count_le (Nat.le_of_not_lt hcount))

/-- Whatever the base of the mask, an excluded property is not in it. -/
theorem not_excludes_of_sentMask {i : Nat} {p : PropDesc}
    (hbit : (sentMask e targetClient isInitial).getLsbD i = true)
    (hp : e.schema.props[i]? = some p) :
    p.excludes e.ownerClient targetClient isInitial = false := by
  rw [getLsbD_sentMask, Bool.and_eq_true_iff, Bool.not_eq_true', hp, Option.any_some] at hbit
  exact hbit.2

end Mask

/-! ### The round trip -/

section RoundTrip

variable {Q : Quantizers} {e : Entity} {cap targetClient : Nat} {isInitial : Bool} {wire : Bytes}

theorem replicateDeserialize_names
    (hwire : replicateSerialize Q e cap targetClient isInitial = some wire) (hsome : wire ≠ [])
    (old : Bytes) :
    (replicateDeserialize Q e.schema wire old).entityId = some (e.entityId % 256 ^ 2) ∧
      (replicateDeserialize Q e.schema wire old).dirty =
        some (sentMask e targetClient isInitial) := by
  rcases replicateSerialize_eq_some hwire with ⟨-, hnil⟩ | ⟨-, bytes, cap', -, rfl⟩
  · exact absurd hnil hsome
  · rw [replicateDeserialize_head]
    exact ⟨rfl, rfl⟩

/-- Two receivers with different bytes all over: one of them loses a byte that a value of the
mask goes to and no property of the mask has. -/
theorem confined_of_kept {mask : BitVec 64} {s : Schema} (rest : Bytes)
    (hread : ∀ old : Bytes, s.valueBufferSize ≤ old.length →
      (readProps Q mask s.props 0 rest old).1 ≠ none ∧
        ∀ pos, (∀ i p, s.props[i]? = some p → mask.getLsbD i = true →
            pos < p.offset ∨ p.offset + p.rawSize ≤ pos) →
          (readProps Q mask s.props 0 rest old).2[pos]? = old[pos]?) :
    s.Confined fun i => mask.getLsbD i = true := by
  intro i p hp hbit pos hlo hhi
  by_contra hnone
  have hin := (laidOut_range s.laidOut).2 i p hp
  have hsize := p.valueSize_le
  have houtside : ∀ j q, s.props[j]? = some q → mask.getLsbD j = true →
      pos < q.offset ∨ q.offset + q.rawSize ≤ pos := by
    intro j q hq hset
    by_contra hinside
    exact hnone ⟨j, q, hq, hset, by omega, by omega⟩
  let filled (b : UInt8) : Bytes := List.replicate (s.valueBufferSize + 16) b
  have hlength : ∀ b, (filled b).length = s.valueBufferSize + 16 := fun _ => List.length_replicate
  have hkept : ∀ b, (readProps Q mask s.props 0 rest (filled b)).2[pos]? = some b := by
    intro b
    rw [(hread (filled b) (by rw [hlength]; omega)).2 pos houtside]
    exact List.getElem?_replicate_of_lt (by omega)
  have hinto : ReadsInto mask s.props 0 (filled 0).length := by
    intro j q hq _
    have := (laidOut_range s.laidOut).2 j q hq
    have := q.valueSize_le
    rw [hlength]
    omega
  have hsame := readProps_covered (Q := Q) mask s.props pos 0 rest (filled 0) (filled 1)
    (by rw [hlength, hlength]) hinto (hread (filled 0) (by rw [hlength]; omega)).1
    (Or.inr ⟨i, p, hp, by rwa [Nat.zero_add], hlo, hhi⟩)
  rw [hkept, hkept] at hsame
  exact absurd (Option.some.inj hsame) (by decide)

end RoundTrip

/-- The update tells the receiver the whole of its set, and nothing else. -/
structure Conveys (Q : Quantizers) (e : Entity) (targetClient : Nat) (isInitial : Bool)
    (wire old : Bytes) : Prop where
  consumed : (replicateDeserialize Q e.schema wire old).consumed = some wire.length
  entityId : (replicateDeserialize Q e.schema wire old).entityId = some e.entityId
  dirty : ∃ mask, (replicateDeserialize Q e.schema wire old).dirty = some mask ∧
    ∀ i, mask.getLsbD i = true ↔ Selected e targetClient isInitial i
  sent : ∀ i p, e.schema.props[i]? = some p → Selected e targetClient isInitial i →
    p.quantized = false →
    readAt (replicateDeserialize Q e.schema wire old).values p.offset p.rawSize
      = readAt e.values p.offset p.rawSize
  kept : ∀ pos, (∀ i p, e.schema.props[i]? = some p → Selected e targetClient isInitial i →
      pos < p.offset ∨ p.offset + p.rawSize ≤ pos) →
    (replicateDeserialize Q e.schema wire old).values[pos]? = old[pos]?

/-- **What is serialized is deserialized.**  Nothing is sent if there is nothing to send.  If
there is something, an update is sent that tells every receiver the set, exactly if it is not a
snapshot of 64 properties and the codec keeps to the properties of the set. -/
theorem replication_round_trip (Q : Quantizers) (e : Entity)
    (hid : e.entityId < 2 ^ 16) (hvalues : e.values.length = entityMaxValueSize)
    (hfits : e.schema.valueBufferSize ≤ entityMaxValueSize)
    (hdirty : ∀ i, e.dirtyMask.getLsbD i = true → i < e.schema.props.length)
    (targetClient : Nat) (isInitial : Bool) (cap : Nat)
    (hcap : (e.schema.props.map PropDesc.valueSize).sum + 12 ≤ cap) :
    ((∀ i, ¬ Selected e targetClient isInitial i) →
      replicateSerialize Q e cap targetClient isInitial = some []) ∧
    ((∃ i, Selected e targetClient isInitial i) →
      ((∃ wire, replicateSerialize Q e cap targetClient isInitial = some wire ∧ wire ≠ [] ∧
          ∀ old : Bytes, e.schema.valueBufferSize ≤ old.length →
            Conveys Q e targetClient isInitial wire old) ↔
        (isInitial = true → e.schema.props.length < 64) ∧
          e.schema.Confined (Selected e targetClient isInitial))) := by
  obtain ⟨wire, hwire⟩ := replicateSerialize_some (Q := Q) hcap targetClient isInitial
  refine ⟨fun hempty => ?_, fun ⟨k, hk⟩ => ⟨?_, ?_⟩⟩
  · rcases replicateSerialize_eq_some hwire with ⟨-, hnil⟩ | ⟨hne, -⟩
    · rw [hwire, hnil]
    · exact absurd (sentMask_of_empty hdirty hempty) hne
  · rintro ⟨wire, hwire, hsome, hconveys⟩
    have hinitial : isInitial = true → e.schema.props.length < 64 := by
      rintro rfl
      refine Nat.lt_of_le_of_ne e.schema.count_le fun hfull => ?_
      rcases replicateSerialize_eq_some hwire with ⟨-, hnil⟩ | ⟨hne, -⟩
      · exact hsome hnil
      · exact hne (sentMask_full hfull)
    have hmask : ∀ i, (sentMask e targetClient isInitial).getLsbD i = true ↔
        Selected e targetClient isInitial i := getLsbD_sentMask_iff hdirty hinitial
    refine ⟨hinitial, ?_⟩
    rcases replicateSerialize_eq_some hwire with ⟨-, hnil⟩ | ⟨-, bytes, cap', -, rfl⟩
    · exact absurd hnil hsome
    · rw [← funext fun i => propext (hmask i)]
      refine confined_of_kept (Q := Q) bytes fun old hold => ?_
      have hd := hconveys old hold
      have hconsumed := hd.consumed
      have hkept := hd.kept
      rw [replicateDeserialize_head] at hconsumed hkept
      refine ⟨fun hnone => ?_, fun pos hout => hkept pos fun i p hp hi => ?_⟩
      · rw [hnone, Option.map_none] at hconsumed
        cases hconsumed
      · exact hout i p hp ((hmask i).mpr hi)
  · rintro ⟨hinitial, hconfined⟩
    have hmask : ∀ i, (sentMask e targetClient isInitial).getLsbD i = true ↔
        Selected e targetClient isInitial i := getLsbD_sentMask_iff hdirty hinitial
    have hsome : wire ≠ [] := by
      rintro rfl
      exact (sentMask_eq_zero_iff hdirty hinitial).mp (replicateSerialize_nil hwire) k hk
    rw [← funext fun i => propext (hmask i)] at hconfined
    refine ⟨wire, hwire, hsome, fun old hold => ?_⟩
    obtain ⟨hconsumed, hcarried⟩ := replicateDeserialize_serialize (Q := Q) hconfined
      (by omega) hwire hsome hold
    obtain ⟨hentity, hsent⟩ := replicateDeserialize_names hwire hsome old
    refine ⟨hconsumed, ?_, ⟨_, hsent, hmask⟩, ?_, ?_⟩
    · rw [hentity, show e.entityId % 256 ^ 2 = e.entityId from Nat.mod_eq_of_lt hid]
    · intro i p hp hi hplain
      exact hcarried.sent i p hp ((hmask i).mpr hi) hplain
    · intro pos hout
      exact hcarried.kept pos fun i p hp hbit => hout i p hp ((hmask i).mp hbit)

/-! ### Sixty-four properties -/

/-- Properties of one byte each. -/
def byteProps (n : Nat) : List PropDesc := (List.range n).map fun i => ⟨.u8, 0, 1, i, 0⟩

theorem byteProps_succ (n : Nat) : byteProps (n + 1) = byteProps n ++ [⟨.u8, 0, 1, n, 0⟩] := by
  rw [byteProps, List.range_succ, List.map_append, List.map_singleton, ← byteProps]

theorem length_byteProps (n : Nat) : (byteProps n).length = n := by
  rw [byteProps, List.length_map, List.length_range]

theorem laidOut_byteProps (n : Nat) : LaidOut (byteProps n) 0 n := by
  induction n with
  | zero => exact rfl
  | succ n ih =>
    rw [byteProps_succ]
    exact laidOut_concat ih rfl

/-- The schema they make. -/
def byteSchema (n : Nat) (h : n ≤ maxProperties) : Schema :=
  ⟨byteProps n, n, by rwa [length_byteProps], laidOut_byteProps n⟩

/-- Calls of `netudp_schema_add_u8` make it. -/
theorem byteSchema_built (n : Nat) (h : n ≤ maxProperties) : (byteSchema n h).Built := by
  induction n with
  | zero => exact .empty
  | succ n ih =>
    have hlength : (byteSchema n (Nat.le_of_succ_le h)).props.length = n := length_byteProps n
    have hadd : (byteSchema n (Nat.le_of_succ_le h)).addU8 0 = some (byteSchema (n + 1) h) := by
      rw [Schema.addU8, Schema.addProp, dif_pos (by rw [hlength]; exact h)]
      simp only [byteSchema, byteProps_succ]
    exact .u8 (ih (Nat.le_of_succ_le h)) hadd

theorem getElem?_byteProps {n i : Nat} (h : i < n) :
    (byteProps n)[i]? = some ⟨.u8, 0, 1, i, 0⟩ := by
  rw [byteProps, List.getElem?_map, List.getElem?_range h, Option.map_some]

/-- An entity with as many properties as a schema takes. -/
def fullEntity (dirtyMask : BitVec 64) : Entity :=
  { entityId := 1, schema := byteSchema 64 (Nat.le_refl 64), dirtyMask := dirtyMask }

/-- The last of its properties has changed: the update arrives, and changes no other. -/
theorem replication_round_trip_last_of_64 :
    let e := fullEntity (BitVec.twoPow 64 63)
    ∀ (Q : Quantizers), ∃ wire, replicateSerialize Q e 2080 0 false = some wire ∧ wire ≠ [] ∧
      ∀ old : Bytes, e.schema.valueBufferSize ≤ old.length → Conveys Q e 0 false wire old := by
  intro e Q
  have hcoded : e.schema.Coded := (byteSchema_built 64 (Nat.le_refl 64)).typed.coded
  have hdirty : ∀ i, e.dirtyMask.getLsbD i = true → i < e.schema.props.length := by
    intro i hi
    rw [show e.schema.props.length = 64 from length_byteProps 64]
    exact BitVec.lt_of_getLsbD hi
  have hsome : Selected e 0 false 63 :=
    ⟨_, getElem?_byteProps (by omega), Or.inr (by decide), by decide⟩
  exact ((replication_round_trip Q e (by decide) List.length_replicate (by decide) hdirty 0 false
    2080 (by rw [hcoded.sum_valueSize]; decide)).2 ⟨63, hsome⟩).mpr
      ⟨fun h => absurd h Bool.false_ne_true, hcoded.confined _⟩

/-- The initial snapshot of it is empty, though each of its properties is to be sent. -/
theorem full_snapshot_is_empty :
    (∀ i < 64, Selected (fullEntity 0) 0 true i) ∧
      ∀ Q : Quantizers,
        replicateSerialize Q (fullEntity 0) (entityMaxValueSize + 32) 0 true = some [] := by
  refine ⟨?_, ?_⟩
  · intro i hi
    exact ⟨_, getElem?_byteProps hi, Or.inl rfl, by simp [PropDesc.excludes, PropDesc.has]⟩
  · intro Q
    rw [replicateSerialize, if_neg (by decide)]
    exact if_pos (sentMask_full (length_byteProps 64))

/-! ### What is kept from a client -/

/-- The entities agree on everything but the values of properties that are kept from the
client.  The value of a quantized property is its floats. -/
structure AgreeExcept (a b : Entity) (targetClient : Nat) (isInitial : Bool) : Prop where
  same : b = { a with values := b.values }
  values : ∀ p ∈ a.schema.props, p.excludes a.ownerClient targetClient isInitial = false →
    readAt a.values p.offset p.valueSize = readAt b.values p.offset p.valueSize

section Confined

variable {Q : Quantizers}

/-- A property on the wire depends on its value only. -/
theorem writeProp_congr {p : PropDesc} {v w : Bytes}
    (h : v.take p.valueSize = w.take p.valueSize) (cap : Nat) :
    writeProp Q p v cap = writeProp Q p w cap := by
  unfold PropDesc.valueSize at h
  unfold writeProp
  split
  · rename_i hquant
    rw [if_pos hquant] at h
    cases htype : p.type with
    | vec3 =>
      simp only [htype] at h ⊢
      rw [h]
    | quat =>
      simp only [htype] at h ⊢
      rw [h]
    | f32 =>
      simp only [htype] at h ⊢
      rw [h]
    | _ =>
      simp only [htype] at h ⊢
      rw [writeRaw, writeRaw, h]
  · rename_i hquant
    rw [if_neg hquant] at h
    rw [writeRaw, writeRaw, h]

theorem writeProps_congr {v w : Bytes} {mask : BitVec 64} (props : List PropDesc) :
    ∀ (i cap : Nat), (∀ j p, props[j]? = some p → mask.getLsbD (i + j) = true →
        readAt v p.offset p.valueSize = readAt w p.offset p.valueSize) →
      writeProps Q v mask props i cap = writeProps Q w mask props i cap := by
  induction props with
  | nil =>
    intro i cap _
    rfl
  | cons p rest ih =>
    intro i cap hsame
    have hrest : ∀ cap', writeProps Q v mask rest (i + 1) cap'
        = writeProps Q w mask rest (i + 1) cap' := by
      intro cap'
      refine ih (i + 1) cap' ?_
      intro j q hq hbit
      refine hsame (j + 1) q hq ?_
      rwa [show i + (j + 1) = i + 1 + j by omega]
    rw [writeProps, writeProps]
    split
    · rename_i hbit
      rw [writeProp_congr (hsame 0 p rfl hbit) cap]
      simp only [hrest]
    · exact hrest cap

/-- **What is kept from a client does not show in what it is sent**: entities that differ
only in such values are serialized to the same bytes. -/
theorem serialize_confined (Q : Quantizers) (a b : Entity) (targetClient : Nat) (isInitial : Bool)
    (h : AgreeExcept a b targetClient isInitial) (cap : Nat) :
    replicateSerialize Q a cap targetClient isInitial
      = replicateSerialize Q b cap targetClient isInitial := by
  obtain ⟨hsame, hvalues⟩ := h
  generalize b.values = values at hsame hvalues
  subst hsame
  have hprops : ∀ cap', writeProps Q a.values (sentMask a targetClient isInitial) a.schema.props 0
      cap' = writeProps Q values (sentMask a targetClient isInitial) a.schema.props 0 cap' := by
    intro cap'
    refine writeProps_congr a.schema.props 0 cap' ?_
    intro j p hp hbit
    rw [Nat.zero_add] at hbit
    exact hvalues p (List.mem_of_getElem? hp) (not_excludes_of_sentMask hbit hp)
  unfold replicateSerialize
  simp only [hprops]
  rfl

end Confined

/-- A secret of the owner's, client 0, and a byte for everyone. -/
def secretSchema : Schema := ((Schema.empty.addU8 repOwnerOnly).bind (·.addU8 0)).getD .empty

/-- Client 1 is sent the same whatever the secret is. -/
theorem serialize_confined_secret :
    let a : Entity := { entityId := 1, schema := secretSchema, ownerClient := some 0 }
    ∀ (Q : Quantizers) (secret : UInt8),
      replicateSerialize Q { a with values := writeAt a.values 0 [secret] } 2080 1 true
        = replicateSerialize Q a 2080 1 true := by
  intro a Q secret
  refine (serialize_confined Q a { a with values := writeAt a.values 0 [secret] } 1 true
    ⟨rfl, ?_⟩ 2080).symm
  intro p hp hsent
  have hprops : a.schema.props = [⟨.u8, repOwnerOnly, 1, 0, 0⟩, ⟨.u8, 0, 1, 1, 0⟩] := rfl
  rw [hprops] at hp
  rcases List.mem_cons.mp hp with rfl | hp
  · exact absurd hsent (by decide)
  · obtain rfl := List.mem_singleton.mp hp
    exact (readAt_writeAt_after (by simp) (by simp)).symm

end Netudp
