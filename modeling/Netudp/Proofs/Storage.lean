/-
Where the values of an entity lie.

Every property has a range of the value buffer to itself, because `add_prop` puts one
behind the other.  Nothing keeps the ranges inside the 2048 bytes an entity has, though: a
blob may have any size.  And a setter trusts the length it is given: a negative one passes
the check against the capacity and is a very large `size_t`.

With a schema that fits and a length that is not negative, a setter stays inside its own
property, and does what the model with a list of values says it does.
-/
import Netudp.Proofs.ReplicationCodec
import Netudp.Replication.Storage

namespace Netudp

open Lib

/-! ### The layout -/

/-- The ranges of two properties have no byte in common. -/
theorem ranges_disjoint (s : Schema) {i j : Nat} {p q : PropDesc} (hp : s.props[i]? = some p)
    (hq : s.props[j]? = some q) (hij : i ≠ j) :
    p.offset + p.rawSize ≤ q.offset ∨ q.offset + q.rawSize ≤ p.offset := by
  rcases Nat.lt_or_gt_of_ne hij with hlt | hgt
  · exact Or.inl (laidOut_apart s.laidOut hp hq hlt)
  · exact Or.inr (laidOut_apart s.laidOut hq hp hgt)

theorem range_inside (s : Schema) {i : Nat} {p : PropDesc} (hp : s.props[i]? = some p) :
    p.offset + p.rawSize ≤ s.valueBufferSize :=
  ((laidOut_range s.laidOut).2 i p hp).2

theorem propAt_some {s : Schema} {idx : Int} {p : PropDesc} (h : s.propAt idx = some p) :
    0 ≤ idx ∧ s.props[idx.toNat]? = some p := by
  unfold Schema.propAt at h
  split at h
  · cases h
  · exact ⟨by omega, h⟩

/-! ### Setters -/

/-- The length the call gives is not negative. -/
def StoreCall.Sensible : StoreCall → Prop
  | .blob _ _ len => 0 ≤ len
  | _ => True

theorem sizeT_of_nonneg {len : Int} (h : 0 ≤ len) : (sizeT len : Int) ≤ len := by
  unfold sizeT
  omega

theorem sizeT_of_lt {len : Int} (h : 0 ≤ len) (hlt : len < 2 ^ 64) : sizeT len = len.toNat := by
  unfold sizeT
  omega

theorem Storage.validProp_some {s : Storage} {idx : Int} {expected : PropType} {p : PropDesc}
    (h : s.validProp idx expected = some p) :
    s.schema.propAt idx = some p ∧ p.type = expected := by
  unfold Storage.validProp at h
  split at h
  · cases h
  · rename_i q hq
    split at h
    · rename_i htype
      obtain rfl := Option.some.inj h
      exact ⟨hq, htype⟩
    · cases h

/-- **A setter changes nothing or writes inside its property.** -/
theorem Storage.set_cases {s : Storage} (htyped : s.schema.Typed) {call : StoreCall}
    (hsensible : call.Sensible) :
    (s.set call).2 = s ∨ ∃ p src n, s.schema.propAt call.idx = some p ∧ n ≤ p.rawSize ∧
      (s.set call).2 = s.store call.idx p src n := by
  have hsetter : ∀ (same : Bytes → Bytes → Bool) (expected : PropType) (idx : Int) (val : Bytes),
      (∀ p : PropDesc, p.sized → p.type = expected → val.length ≤ p.rawSize) →
      (s.setValue same expected idx val).2 = s ∨
        ∃ p src n, s.schema.propAt idx = some p ∧ n ≤ p.rawSize ∧
          (s.setValue same expected idx val).2 = s.store idx p src n := by
    intro same expected idx val hlen
    unfold Storage.setValue
    cases hvalid : s.validProp idx expected with
    | none => exact Or.inl rfl
    | some p =>
      obtain ⟨hp, htype⟩ := Storage.validProp_some hvalid
      have hsized := htyped p (List.mem_of_getElem? (propAt_some hp).2)
      simp only
      split
      · exact Or.inl rfl
      · exact Or.inr ⟨p, _, val.length, hp, hlen p hsized htype, rfl⟩
  cases call with
  | blob idx data len =>
    simp only [Storage.set, Storage.setBlob]
    cases hvalid : s.validProp idx .blob with
    | none => exact Or.inl rfl
    | some p =>
      obtain ⟨hp, htype⟩ := Storage.validProp_some hvalid
      have hsized := htyped p (List.mem_of_getElem? (propAt_some hp).2)
      simp only [PropDesc.sized, htype] at hsized
      have hlen : (sizeT len : Int) ≤ len := sizeT_of_nonneg hsensible
      simp only
      split
      · exact Or.inl rfl
      split
      · exact Or.inl rfl
      · exact Or.inr ⟨p, data, sizeT len, hp, by omega, rfl⟩
  -- Every other setter has the size of its type.
  | _ =>
    refine hsetter _ _ _ _ ?_
    intro p hsized htype
    simp [PropDesc.sized, htype] at hsized
    simp [hsized]

/-- **Storage is safe as long as the schema fits**: the ranges of the properties are
disjoint and inside the buffer, and a setter changes no byte outside its property and no
other dirty bit. -/
theorem storage_layout_safe (schema : Schema) (hbuilt : schema.Built)
    (hfits : schema.valueBufferSize ≤ entityMaxValueSize) :
    (∀ (i j : Nat) (p q : PropDesc), schema.props[i]? = some p → schema.props[j]? = some q →
      i ≠ j → p.offset + p.rawSize ≤ q.offset ∨ q.offset + q.rawSize ≤ p.offset) ∧
    (∀ p ∈ schema.props, p.offset + p.rawSize ≤ entityMaxValueSize) ∧
    ∀ s : Storage, s.schema = schema → ∀ call : StoreCall, call.Sensible →
      (∀ a, (s.set call).2.memory a ≠ s.memory a →
        ∃ p, schema.propAt call.idx = some p ∧ p.offset ≤ a ∧ a < p.offset + p.rawSize) ∧
      (∀ j, (s.set call).2.dirtyMask.getLsbD j ≠ s.dirtyMask.getLsbD j →
        call.idx = (j : Int)) := by
  refine ⟨?_, ?_, ?_⟩
  · intro i j p q hp hq hij
    exact ranges_disjoint schema hp hq hij
  · intro p hp
    obtain ⟨i, hi⟩ := List.mem_iff_getElem?.mp hp
    exact Nat.le_trans (range_inside schema hi) hfits
  · rintro s rfl call hsensible
    rcases Storage.set_cases hbuilt.typed hsensible with hsame | ⟨p, src, n, hp, hn, hstore⟩
    · rw [hsame]
      exact ⟨fun a ha => absurd rfl ha, fun j hj => absurd rfl hj⟩
    · rw [hstore]
      refine ⟨?_, ?_⟩
      · intro a ha
        by_cases hin : p.offset ≤ a ∧ a < p.offset + n
        · exact ⟨p, hp, hin.1, by omega⟩
        · exact absurd (if_neg hin) ha
      · intro j hj
        have hidx := (propAt_some hp).1
        by_cases heq : call.idx.toNat = j
        · omega
        · refine absurd ?_ hj
          show (s.dirtyMask ||| BitVec.twoPow 64 call.idx.toNat).getLsbD j = s.dirtyMask.getLsbD j
          rw [BitVec.getLsbD_or, BitVec.getLsbD_twoPow]
          simp [heq]

/-- Four bytes and one more. -/
def pairSchema : Schema := ((Schema.empty.addBlob 4 0).bind (·.addU8 0)).getD .empty

theorem pairSchema_built : pairSchema.Built := by
  have hblob : Schema.empty.addBlob 4 0 = some ((Schema.empty.addBlob 4 0).getD .empty) := rfl
  exact .u8 (.blob .empty hblob) rfl

/-- A blob that fills its property leaves the next one alone. -/
theorem storage_layout_safe_pair :
    ((⟨pairSchema, 0, fun _ => 0⟩ : Storage).set (.blob 0 (fun _ => 1) 4)).2.memory 4 = 0 := by
  by_contra hchanged
  obtain ⟨p, hp, -, hlt⟩ := ((storage_layout_safe pairSchema pairSchema_built (by decide)).2.2
    ⟨pairSchema, 0, fun _ => 0⟩ rfl (.blob 0 (fun _ => 1) 4)
    (Int.natCast_nonneg 4)).1 4 hchanged
  obtain rfl : (⟨.blob, 0, 4, 0, 4⟩ : PropDesc) = p := Option.some.inj hp
  exact absurd hlt (by decide)

theorem setBlob_written {s : Storage} {idx len : Int} {p : PropDesc} {data : Memory}
    (hvalid : s.validProp idx .blob = some p) (hlen : ¬ (p.blobCapacity : Int) < len)
    (hsome : 0 < sizeT len) (hnew : s.memory p.offset ≠ data 0) {a : Nat}
    (ha : p.offset ≤ a ∧ a < p.offset + sizeT len) :
    (s.set (.blob idx data len)).2.memory a = data (a - p.offset) := by
  have hdiffers : ¬ s.memory.Same p.offset data (sizeT len) := fun hsame => hnew (hsame 0 hsome)
  simp only [Storage.set, Storage.setBlob, hvalid]
  rw [if_neg hlen, if_neg hdiffers]
  exact if_pos ha

/-- Twice as much as an entity has room for. -/
def wideSchema : Schema := (Schema.empty.addBlob 4096 0).getD .empty

/-- A blob of 4096 bytes is accepted into a schema, and setting it writes behind the
buffer.  A length of -1 is accepted for one of 4 bytes, and setting it writes over the
property behind it, and everything else. -/
theorem storage_layout_overrun :
    (Schema.empty.addBlob 4096 0 = some wideSchema ∧
      entityMaxValueSize < wideSchema.valueBufferSize ∧
      ((⟨wideSchema, 0, fun _ => 0⟩ : Storage).set (.blob 0 (fun _ => 1) 4096)).2.memory 3000
        = 1) ∧
    pairSchema.valueBufferSize = 5 ∧
      ((⟨pairSchema, 0, fun _ => 0⟩ : Storage).set (.blob 0 (fun _ => 1) (-1))).2.memory 4 = 1 := by
  have hwide : (⟨wideSchema, 0, fun _ => 0⟩ : Storage).validProp 0 .blob
      = some ⟨.blob, 0, 4096, 0, 4096⟩ := rfl
  have hpair : (⟨pairSchema, 0, fun _ => 0⟩ : Storage).validProp 0 .blob
      = some ⟨.blob, 0, 4, 0, 4⟩ := rfl
  refine ⟨⟨rfl, by decide, ?_⟩, rfl, ?_⟩
  · exact setBlob_written hwide (by decide) (by decide) (by decide) (by decide)
  · exact setBlob_written hpair (by decide) (by decide) (by decide) (by decide)

/-! ### The model with a list of values -/

/-- The entity in memory, with what lies behind it. -/
def Storage.ofEntity (e : Entity) (beyond : Memory) : Storage :=
  ⟨e.schema, e.dirtyMask, fun a => if a < e.values.length then e.values.getD a 0 else beyond a⟩

/-- The call as the model has it. -/
def StoreCall.asSet : StoreCall → SetCall
  | .u8 idx val => .u8 idx.toNat val
  | .u16 idx val => .u16 idx.toNat val
  | .i32 idx val => .i32 idx.toNat val
  | .f32 idx bits => .f32 idx.toNat bits
  | .vec3 idx v => .vec3 idx.toNat v
  | .quat idx q => .quat idx.toNat q
  | .blob idx data len => .blob idx.toNat (data.read 0 len.toNat)

section Refines

variable {e : Entity} {beyond : Memory}

theorem read_ofEntity {pos n : Nat} (h : pos + n ≤ e.values.length) :
    (Storage.ofEntity e beyond).memory.read pos n = readAt e.values pos n := by
  refine List.ext_getElem? fun i => ?_
  rw [Memory.read, List.getElem?_map, readAt, List.getElem?_take]
  rcases Nat.lt_or_ge i n with hlt | hge
  · rw [List.getElem?_range hlt, if_pos hlt, List.getElem?_drop, Option.map_some]
    show some (if pos + i < e.values.length then e.values.getD (pos + i) 0 else beyond (pos + i)) = _
    rw [if_pos (by omega), List.getD_eq_getElem?_getD, List.getElem?_eq_getElem (by omega),
      Option.getD_some]
  · rw [if_neg (by omega), List.getElem?_eq_none (by rw [List.length_range]; exact hge),
      Option.map_none]

theorem copy_ofEntity {pos : Nat} {val : Bytes} (h : pos + val.length ≤ e.values.length)
    {src : Memory} (hsrc : src.read 0 val.length = val) :
    (Storage.ofEntity e beyond).memory.copy pos src val.length
      = (Storage.ofEntity { e with values := writeAt e.values pos val } beyond).memory := by
  have hlen : (writeAt e.values pos val).length = e.values.length := length_writeAt h
  funext a
  show (if pos ≤ a ∧ a < pos + val.length then src (a - pos)
      else if a < e.values.length then e.values.getD a 0 else beyond a)
    = if a < (writeAt e.values pos val).length then (writeAt e.values pos val).getD a 0 else beyond a
  rw [hlen]
  by_cases hin : pos ≤ a ∧ a < pos + val.length
  · rw [if_pos hin, if_pos (by omega)]
    have hone := congrArg (fun bytes : Bytes => bytes[a - pos]?) (readAt_writeAt_self h)
    have hread := congrArg (fun bytes : Bytes => bytes[a - pos]?) hsrc
    simp only [readAt, Memory.read] at hone hread
    rw [List.getElem?_take, if_pos (by omega), List.getElem?_drop,
      show pos + (a - pos) = a by omega] at hone
    rw [List.getElem?_map, List.getElem?_range (by omega), Option.map_some, Nat.zero_add] at hread
    rw [List.getD_eq_getElem?_getD, hone, ← hread, Option.getD_some]
  · rw [if_neg hin]
    split
    · rw [List.getD_eq_getElem?_getD, List.getD_eq_getElem?_getD,
        getElem?_writeAt_of_outside (by omega) (by omega)]
    · rfl

theorem validProp_ofEntity {idx : Int} (hidx : 0 ≤ idx) (expected : PropType) :
    (Storage.ofEntity e beyond).validProp idx expected = e.validProp idx.toNat expected := by
  have hprop : (Storage.ofEntity e beyond).schema.propAt idx = e.schema.props[idx.toNat]? :=
    if_neg (by omega)
  cases hfound : e.schema.props[idx.toNat]? with
  | none => simp only [Storage.validProp, Entity.validProp, hprop, hfound]
  | some p => simp only [Storage.validProp, Entity.validProp, hprop, hfound]

theorem length_read (m : Memory) (pos n : Nat) : (m.read pos n).length = n := by
  rw [Memory.read, List.length_map, List.length_range]

theorem read_ofBytes (val : Bytes) : (Memory.ofBytes val).read 0 val.length = val := by
  refine List.ext_getElem? fun i => ?_
  rw [Memory.read, List.getElem?_map]
  rcases Nat.lt_or_ge i val.length with hlt | hge
  · rw [List.getElem?_range hlt, Option.map_some, Nat.zero_add, Memory.ofBytes,
      List.getD_eq_getElem?_getD, List.getElem?_eq_getElem hlt, Option.getD_some]
  · rw [List.getElem?_eq_none (by rw [List.length_range]; exact hge), Option.map_none,
      List.getElem?_eq_none hge]

theorem same_iff_read {m src : Memory} {pos n : Nat} :
    m.Same pos src n ↔ m.read pos n = src.read 0 n := by
  unfold Memory.Same Memory.read
  rw [List.map_inj_left]
  simp only [List.mem_range, Nat.zero_add]

/-- The buffer of the entity has room for every property. -/
structure Roomy (e : Entity) : Prop where
  typed : e.schema.Typed
  values : e.schema.valueBufferSize ≤ e.values.length
  length : e.values.length = entityMaxValueSize

theorem store_ofEntity (hroom : Roomy e) (beyond : Memory) {idx : Int} {p : PropDesc}
    (hp : e.schema.props[idx.toNat]? = some p) {val : Bytes} (hlen : val.length ≤ p.rawSize)
    {src : Memory} (hsrc : src.read 0 val.length = val) :
    (Storage.ofEntity e beyond).store idx p src val.length
      = Storage.ofEntity (e.store idx.toNat p val) beyond := by
  have hinside := range_inside e.schema hp
  have hvalues := hroom.values
  unfold Storage.store
  rw [copy_ofEntity (by omega) hsrc]
  rfl

theorem setValue_ofEntity (hroom : Roomy e) (same : Bytes → Bytes → Bool) {expected : PropType}
    {idx : Int} {val : Bytes} (hidx : 0 ≤ idx)
    (hlen : ∀ p : PropDesc, p.sized → p.type = expected → val.length ≤ p.rawSize) :
    (Storage.ofEntity e beyond).setValue same expected idx val
      = ((e.setValue same expected idx.toNat val).1,
        Storage.ofEntity (e.setValue same expected idx.toNat val).2 beyond) := by
  unfold Storage.setValue Entity.setValue
  rw [validProp_ofEntity hidx]
  cases hvalid : e.validProp idx.toNat expected with
  | none => rfl
  | some p =>
    obtain ⟨hp, htype⟩ := validProp_some hvalid
    have hsize := hlen p (hroom.typed p (List.mem_of_getElem? hp)) htype
    have hinside := range_inside e.schema hp
    have hvalues := hroom.values
    simp only
    rw [read_ofEntity (by omega)]
    split
    · rfl
    · rw [store_ofEntity hroom beyond hp hsize (read_ofBytes val)]

theorem same_ofEntity {pos n : Nat} (hinside : pos + n ≤ e.values.length) (data : Memory) :
    (Storage.ofEntity e beyond).memory.Same pos data n ↔
      (readAt e.values pos n == data.read 0 n) = true := by
  rw [same_iff_read, read_ofEntity hinside, beq_iff_eq]

theorem setBlob_ofEntity (hroom : Roomy e) {idx len : Int} (hidx : 0 ≤ idx) (hlen : 0 ≤ len)
    (data : Memory) :
    (Storage.ofEntity e beyond).setBlob idx data len
      = ((e.setBlob idx.toNat (data.read 0 len.toNat)).1,
        Storage.ofEntity (e.setBlob idx.toNat (data.read 0 len.toNat)).2 beyond) := by
  unfold Storage.setBlob Entity.setBlob
  rw [validProp_ofEntity hidx]
  cases hvalid : e.validProp idx.toNat .blob with
  | none => rfl
  | some p =>
    obtain ⟨hp, htype⟩ := validProp_some hvalid
    have hsized := hroom.typed p (List.mem_of_getElem? hp)
    simp only [PropDesc.sized, htype] at hsized
    have hinside := range_inside e.schema hp
    have hvalues := hroom.values
    have hread := length_read data 0 len.toNat
    simp only [hread]
    by_cases hover : (p.blobCapacity : Int) < len
    · have hover' : p.blobCapacity < len.toNat := by omega
      rw [if_pos hover, if_pos hover']
    · -- The length is at most that of the buffer, so it is the same as a `size_t`.
      have hmax : len < 2 ^ 64 := by
        have hbuf : e.values.length = 2048 := hroom.length
        omega
      have hfits : ¬ p.blobCapacity < len.toNat := by omega
      have hsrc : data.read 0 (data.read 0 len.toNat).length = data.read 0 len.toNat := by
        rw [hread]
      have hstore := store_ofEntity hroom beyond hp (by omega) hsrc
      rw [hread] at hstore
      rw [if_neg hover, if_neg hfits, sizeT_of_lt hlen hmax]
      simp only [same_ofEntity (show p.offset + len.toNat ≤ e.values.length by omega)]
      split
      · rfl
      · rw [hstore]

/-- **In memory a setter does what it does to the list of values**, for an index and a
length that are not negative. -/
theorem set_ofEntity (hroom : Roomy e) {call : StoreCall} (hidx : 0 ≤ call.idx)
    (hsensible : call.Sensible) :
    (Storage.ofEntity e beyond).set call
      = ((e.set call.asSet).1, Storage.ofEntity (e.set call.asSet).2 beyond) := by
  cases call with
  | blob idx data len => exact setBlob_ofEntity hroom hidx hsensible data
  | f32 idx bits =>
    refine setValue_ofEntity hroom (fun old new => Entity.f32Equal (leNat old) (leNat new)) hidx ?_
    intro p hsized htype
    simp only [PropDesc.sized, htype] at hsized
    rw [length_leBytes, hsized]
  | _ =>
    refine setValue_ofEntity hroom _ hidx ?_
    intro p hsized htype
    simp [PropDesc.sized, htype] at hsized
    simp [hsized]

/-- The byte behind a blob. -/
theorem set_ofEntity_pair :
    ((Storage.ofEntity { entityId := 1, schema := pairSchema } fun _ => 9).set (.u8 1 5)).1
      = true := by
  refine (congrArg Prod.fst (set_ofEntity ?_ ?_ ?_)).trans rfl
  · exact ⟨pairSchema_built.typed, List.length_replicate.ge.trans' (by decide),
      List.length_replicate⟩
  · decide
  · trivial

end Refines

end Netudp
