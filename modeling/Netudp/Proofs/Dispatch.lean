/-
Finding a client by its address.

Two questions about the map from addresses to slots.  What it says is always right: an
entry, and so every packet that is dispatched, leads to an active slot with that address,
even after an insert that failed and with several slots at one address.  Whether it says
enough is another matter.  Nothing keeps a second client from being admitted from an
address that has one already; its entry replaces the first one's, and when either of the
two leaves, the entry goes.  As long as every client comes from an address of its own, and
the map has room, every active connection is found.
-/
import Netudp.Proofs.NonceReuse
import Netudp.Proofs.ServerTables

namespace Netudp

open Lib FixedHashMap

variable {Key Ct : Type} (C : Primitives Key Ct) (T : TokenOps Key) (cfg : ServerConfig)

/-! ### What is found is right -/

theorem dispatchPacket_data (s : Server Key) (from_ : Address) {wireSlot : Nat}
    (hslot : wireSlot < u16Size) (packet : Packet Ct) (rest : Bytes) :
    s.dispatchPacket C T cfg from_ (.data wireSlot packet) =
      match s.dispatchSlot cfg from_ (packet.prefixByte :: leBytes 2 wireSlot ++ rest)
          (3 + C.ctLen packet.ct) with
      | none => (s, [])
      | some slot => s.handleDataPacket C cfg slot packet := by
  have hwire : leNat (((leBytes 2 wireSlot ++ rest)).take 2) = wireSlot := by
    rw [List.take_left' (length_leBytes 2 wireSlot), leNat_leBytes_of_lt hslot]
  simp only [Server.dispatchPacket, Server.dispatchSlot, List.cons_append, List.headD_cons,
    List.drop_succ_cons, List.drop_zero, hwire, Nat.add_sub_cancel_left]
  by_cases hkind : Server.isDataPrefix packet.prefixByte = true
  · have hdata : packet.prefixByte.toNat % 16 ≠ 0 := by
      intro hzero
      have hrekey : packet.prefixByte ≠ packetPrefixDataRekey := by
        intro heq
        rw [heq] at hzero
        exact absurd hzero (by decide)
      simp [Server.isDataPrefix, hzero, hrekey] at hkind
    cases s.findSlot cfg from_ wireSlot (C.ctLen packet.ct) with
    | none => simp [hkind, hdata]
    | some slot => simp [hkind, hdata]
  · simp [hkind]

/-- **A packet is handled only for an active slot whose address is the sender's**: so are
all entries of the address map, and so is the slot of a packet, whatever its bytes and
its length. -/
theorem dispatch_sound (time : Time) (es : List (ServerEvent Ct)) :
    let s := Server.after C T cfg time es
    (∀ c a slot, s.addressToSlot.slots.get c = some (a, slot) →
      (s.connections slot).active = true ∧
        addressEqual (s.connections slot).address a = true) ∧
    (∀ from_ data len slot, s.dispatchSlot cfg from_ data len = some slot →
      (s.connections slot).active = true ∧
        addressEqual (s.connections slot).address from_ = true) ∧
    ∀ from_ wireSlot packet,
      s.dispatchPacket C T cfg from_ (.data wireSlot packet) = (s, []) ∨
      ∃ slot, (s.connections slot).active = true ∧
        addressEqual (s.connections slot).address from_ = true ∧
        s.dispatchPacket C T cfg from_ (.data wireSlot packet)
          = s.handleDataPacket C cfg slot packet := by
  intro s
  have h : Tables cfg s := tables_after C T cfg time es
  refine ⟨?_, ?_, ?_⟩
  · intro c a slot hcell
    obtain ⟨f, hrep, hsound⟩ := h.mapped
    obtain ⟨hmem, hkey⟩ := hsound _ slot ((hrep.binds _ slot).mpr ⟨a, ⟨c, hcell⟩, rfl⟩)
    refine ⟨(h.table.active slot).mpr hmem, ?_⟩
    rw [rawBytes_address_inj hkey, addressEqual_self]
  · intro from_ data len slot hslot
    simp only [Server.dispatchSlot] at hslot
    split at hslot
    · cases hslot
    split at hslot
    · exact h.findSlot_sound hslot
    · cases hslot
  · intro from_ wireSlot packet
    simp only [Server.dispatchPacket]
    split
    · split
      · exact Or.inl rfl
      · rename_i slot hfind
        obtain ⟨hactive, haddress⟩ := h.findSlot_sound hfind
        exact Or.inr ⟨slot, hactive, haddress, rfl⟩
    · exact Or.inl rfl

/-! ### What is right is found -/

/-- Every active connection is found by its address. -/
def AllFound (s : Server Key) : Prop :=
  ∀ i, (s.connections i).active = true →
    s.addressToSlot.find fnv1a (s.connections i).address = some i

/-- A request is admitted only from an address that no active client has, and while there
are fewer active clients than the map has cells. -/
def NewAddress (s : Server Key) : ServerEvent Ct → Prop
  | .dispatch from_ (.request packet) =>
    (s.admits T cfg from_ packet).isSome = true →
      s.activeSlots.length < 4096 ∧ ∀ i ∈ s.activeSlots, (s.connections i).address ≠ from_
  | _ => True

instance (s : Server Key) : (ev : ServerEvent Ct) → Decidable (NewAddress T cfg s ev)
  | .dispatch from_ (.request packet) =>
    inferInstanceAs (Decidable ((s.admits T cfg from_ packet).isSome = true →
      s.activeSlots.length < 4096 ∧ ∀ i ∈ s.activeSlots, (s.connections i).address ≠ from_))
  | .dispatch _ (.data _ _) | .beginUpdate _ | .finishUpdate | .send _ _ _ _ | .sendState _ _ _ _
  | .flush _ => isTrue trivial

variable {C T cfg} {s s' : Server Key}

theorem find_remove (h : Tables cfg s) (a b : Address) :
    (s.addressToSlot.remove fnv1a a).2.find fnv1a b
      = if b = a then none else s.addressToSlot.find fnv1a b := by
  obtain ⟨f, hrep, -⟩ := h.mapped
  have hremoved : (s.addressToSlot.remove fnv1a a).2.find fnv1a b
      = (f.erase (rawBytes a)).lookup (rawBytes b) :=
    (hrep.apply (.remove a)).2.find_eq b
  rw [hremoved, hrep.find_eq]
  split
  · rename_i hab
    rw [hab, Finmap.lookup_erase]
  · rename_i hab
    rw [Finmap.lookup_erase_ne fun hbytes => hab (rawBytes_address_inj hbytes)]

theorem find_insert_of_ne (h : Tables cfg s) {a b : Address} (hab : b ≠ a) (slot : Nat) :
    (s.addressToSlot.insert fnv1a a slot).2.find fnv1a b = s.addressToSlot.find fnv1a b := by
  obtain ⟨f, hrep, -⟩ := h.mapped
  have hinserted : (s.addressToSlot.insert fnv1a a slot).2.find fnv1a b
      = (f.apply 4096 (.insert a slot)).2.lookup (rawBytes b) :=
    (hrep.apply (.insert a slot)).2.find_eq b
  rw [hinserted, hrep.find_eq, Bindings.apply]
  split
  · rw [Finmap.lookup_insert_of_ne _ fun hbytes => hab (rawBytes_address_inj hbytes)]
  · rfl

theorem Tables.card_le {f : Bindings Nat}
    (hsound : ∀ k slot, f.lookup k = some slot →
      slot ∈ s.activeSlots ∧ rawBytes (s.connections slot).address = k) :
    f.keys.card ≤ s.activeSlots.length := by
  have hcover : f.keys ⊆
      s.activeSlots.toFinset.image fun i => rawBytes (s.connections i).address := by
    intro k hk
    obtain ⟨slot, hslot⟩ := Finmap.mem_iff.mp (Finmap.mem_keys.mp hk)
    obtain ⟨hmem, hkey⟩ := hsound k slot hslot
    exact Finset.mem_image.mpr ⟨slot, List.mem_toFinset.mpr hmem, hkey⟩
  calc f.keys.card
      ≤ (s.activeSlots.toFinset.image fun i => rawBytes (s.connections i).address).card :=
        Finset.card_le_card hcover
    _ ≤ s.activeSlots.toFinset.card := Finset.card_image_le
    _ ≤ s.activeSlots.length := s.activeSlots.toFinset_card_le

theorem find_insert_self (h : Tables cfg s) (hroom : s.activeSlots.length < 4096) (a : Address)
    (slot : Nat) : (s.addressToSlot.insert fnv1a a slot).2.find fnv1a a = some slot := by
  obtain ⟨f, hrep, hsound⟩ := h.mapped
  have hinserted : (s.addressToSlot.insert fnv1a a slot).2.find fnv1a a
      = (f.apply 4096 (.insert a slot)).2.lookup (rawBytes a) :=
    (hrep.apply (.insert a slot)).2.find_eq a
  rw [hinserted, Bindings.apply,
    if_pos (Or.inr (Nat.lt_of_le_of_lt (Tables.card_le hsound) hroom)), Finmap.lookup_insert]

/-- A move loses no one: the clients left all have other addresses. -/
theorem AllFound.move (h : Tables cfg s) (hmove : Move C s s') (hfound : AllFound s) :
    AllFound s' := by
  cases hmove with
  | @touch slot c hpeer =>
    intro i hi
    show s.addressToSlot.find fnv1a _ = some i
    by_cases his : i = slot
    · subst his
      rw [Server.setConnection_self] at hi ⊢
      rw [hpeer.address]
      exact hfound i (hpeer.active ▸ hi)
    · rw [Server.setConnection_of_ne s his] at hi ⊢
      exact hfound i hi
  | @release slot hactive =>
    intro i hi
    rw [h.table.release_connections C slot] at hi ⊢
    have his : i ≠ slot := by
      rintro rfl
      rw [Function.update_self] at hi
      cases hi
    rw [Function.update_of_ne his] at hi ⊢
    rw [release_addressToSlot, find_remove h, if_neg, hfound i hi]
    intro hsame
    have hboth := (hfound i hi).symm.trans (hsame ▸ hfound slot hactive)
    exact his (Option.some.inj hboth)
  | elsewhere hconn _ _ _ hmap =>
    intro i hi
    rw [hconn] at hi ⊢
    rw [hmap]
    exact hfound i hi

theorem AllFound.admission (h : Tables cfg s) {from_ : Address}
    (hadm : Admission cfg s from_ s') (hroom : s.activeSlots.length < 4096)
    (hnew : ∀ i ∈ s.activeSlots, (s.connections i).address ≠ from_) (hfound : AllFound s) :
    AllFound s' := by
  obtain @⟨slot, clientId, rest, fingerprints, c, hfree, hunused, hactive, haddress, hclient⟩ :=
    hadm
  intro i hi
  show (s.addressToSlot.insert fnv1a from_ slot).2.find fnv1a _ = some i
  by_cases his : i = slot
  · subst his
    rw [Server.setConnection_self, haddress, find_insert_self h hroom]
  · rw [Server.setConnection_of_ne _ his] at hi ⊢
    have hold : (s.connections i).active = true := hi
    show (s.addressToSlot.insert fnv1a from_ slot).2.find fnv1a (s.connections i).address = some i
    rw [find_insert_of_ne h (hnew i ((h.table.active i).mp hold))]
    exact hfound i hold

/-- **Every active connection is found by its address** in a run in which every client is
admitted from a new address while the map has room. -/
theorem active_found_by_address (C : Primitives Key Ct) (T : TokenOps Key) (cfg : ServerConfig)
    (time : Time) (es : List (ServerEvent Ct))
    (hnew : Along (fun s ev => (serverStep C T cfg s ev).1) (NewAddress T cfg)
      (.start C cfg time) es) :
    ∀ slot, ((Server.after C T cfg time es).connections slot).active = true →
      (Server.after C T cfg time es).addressToSlot.find fnv1a
        ((Server.after C T cfg time es).connections slot).address = some slot := by
  have hrun := run_invariant (fun s : Server Key => Tables cfg s ∧ AllFound s) (P := NewAddress T cfg)
    ?_ ⟨tables_start C cfg time, ?_⟩ hnew
  · exact hrun.2
  · rintro s ev ⟨h, hfound⟩ hev
    refine ⟨tables_step C T cfg h ev, ?_⟩
    rcases serverStep_cases (C := C) T h ev with
      ⟨from_, packet, admitted, rfl, hadmits, hadmission⟩ | hmoves
    · obtain ⟨hroom, haddress⟩ := hev (by rw [hadmits]; rfl)
      exact hfound.admission h hadmission hroom haddress
    · exact hmoves.keeps (P := AllFound) (fun _ _ htables hmove => AllFound.move htables hmove) hfound
  · intro i hi
    cases hi

/-- Two clients at two addresses are found, the second with its own slot. -/
theorem active_found_by_address_two_clients :
    let s := Server.after toyCipher toyTokens toyServerConfig 0 twoClients
    (s.connections 1).active = true ∧
      s.addressToSlot.find fnv1a (s.connections 1).address = some 1 :=
  ⟨by decide +kernel, active_found_by_address toyCipher toyTokens toyServerConfig 0 twoClients
    (by decide +kernel) 1 (by decide +kernel)⟩

/-- Two clients are admitted from one address, and the map has only the second one's
slot for it. -/
theorem second_client_hides_first :
    let s := Server.after toyCipher toyTokens toyServerConfig 0
      [.beginUpdate 1,
        .dispatch toyAddress (.request (toyRequest 0)),
        .dispatch toyAddress (.request (toyRequest 1))]
    (s.connections 0).active = true ∧ (s.connections 1).active = true ∧
      s.addressToSlot.find fnv1a (s.connections 0).address = some 1 := by
  decide +kernel

end Netudp
