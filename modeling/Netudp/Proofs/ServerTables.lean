/-
The server's tables.

Every step of the server that admits nobody is a chain of moves: a connection is changed
in place and stays with its client, an active slot is released, or something changes that
no table is made of.  A request that is admitted is the one other thing that can happen
(`serverStep_cases`), so an invariant of the tables needs two lemmas, one for a move and
one for an admission.

`Tables` is the first of them.  It holds the slot table and the map from addresses to
slots, of which only soundness is said: an entry leads to an active slot with that
address.  That a slot to be released is active rests on it, because a packet may reach
its slot through the map.
-/
import Netudp.Proofs.HashMap
import Netudp.Proofs.Peer
import Netudp.Proofs.SlotTable

namespace Netudp

open Lib FixedHashMap

variable {Key Ct : Type}

/-! ### Addresses as keys -/

theorem rawBytes_address_inj {a b : Address} (h : rawBytes a = rawBytes b) : a = b := by
  have hbytes : a.data.toList ++ leBytes 2 a.port.toNat ++ [a.type, a.pad]
      = b.data.toList ++ leBytes 2 b.port.toNat ++ [b.type, b.pad] := h
  have hdata : a.data.toList.length = b.data.toList.length := by
    rw [Vector.length_toList, Vector.length_toList]
  obtain ⟨hfront, htail⟩ := List.append_inj' hbytes rfl
  obtain ⟨hleft, hport⟩ := List.append_inj hfront hdata
  have hsame : a.data = b.data := Vector.toList_inj.mp hleft
  have hports : a.port = b.port :=
    UInt16.toNat_inj.mp (leBytes_inj a.port.toNat_lt b.port.toNat_lt hport)
  cases a
  cases b
  simp_all

theorem addressEqual_self (a : Address) : addressEqual a a = true := by
  simp [addressEqual]

/-! ### The invariant -/

/-- The slot table is whole, the active clients have distinct ids, and an entry of the
address map leads to an active slot with that address. -/
structure Tables (cfg : ServerConfig) (s : Server Key) : Prop where
  table : SlotTable s
  slots : ∀ i, i ∈ s.activeSlots ∨ i ∈ s.freeSlots ↔ i < cfg.maxClients
  clientIds : ∀ i ∈ s.activeSlots, ∀ j ∈ s.activeSlots,
    (s.connections i).clientId = (s.connections j).clientId → i = j
  mapped : ∃ f : Bindings Nat, Represents fnv1a s.addressToSlot f ∧
    ∀ k slot, f.lookup k = some slot →
      slot ∈ s.activeSlots ∧ rawBytes (s.connections slot).address = k

theorem tables_start (C : Primitives Key Ct) (cfg : ServerConfig) (time : Time) :
    Tables cfg (Server.start C cfg time) where
  table := slotTable_start C cfg time
  slots i := by simp [Server.start]
  clientIds i hi := absurd hi List.not_mem_nil
  mapped := by
    refine ⟨∅, represents_clear, ?_⟩
    intro k slot hslot
    rw [Finmap.lookup_empty] at hslot
    exact absurd hslot.symm (Option.some_ne_none slot)

/-! ### Moves -/

/-- What a step that admits nobody is made of. -/
inductive Move (C : Primitives Key Ct) (s : Server Key) : Server Key → Prop where
  /-- The connection of a slot is changed and stays with its client. -/
  | touch (slot : Nat) {c : Connection Key} (hpeer : SamePeer (s.connections slot) c) :
      Move C s (s.setConnection slot c)
  /-- A client leaves. -/
  | release {slot : Nat} (hactive : (s.connections slot).active = true) :
      Move C s (s.release C slot)
  /-- Something else changes. -/
  | elsewhere {s' : Server Key} (hconn : s'.connections = s.connections)
      (hactive : s'.activeSlots = s.activeSlots) (hfree : s'.freeSlots = s.freeSlots)
      (hindex : s'.slotToActive = s.slotToActive) (hmap : s'.addressToSlot = s.addressToSlot) :
      Move C s s'

/-- A request is admitted: the client gets the slot on top of the free stack. -/
inductive Admission (cfg : ServerConfig) (s : Server Key) (from_ : Address) :
    Server Key → Prop where
  | into {slot clientId : Nat} {rest : List Nat}
      {fingerprints : FixedHashMap 2048 Nat FingerprintValue} {c : Connection Key}
      (hfree : s.freeSlots = slot :: rest)
      (hunused : s.clientIdInUse cfg clientId = false)
      (hactive : c.active = true) (haddress : c.address = from_) (hclient : c.clientId = clientId) :
      Admission cfg s from_
        ((Server.activateSlot { s with fingerprintMap := fingerprints } from_ slot).setConnection
          slot c)

/-! ### A release -/

theorem deactivateSlot_freeSlots {s : Server Key} (h : SlotTable s) {slot : Nat}
    (hmem : slot ∈ s.activeSlots) : (s.deactivateSlot slot).freeSlots = slot :: s.freeSlots := by
  cases hpos : s.slotToActive slot with
  | none => exact absurd hmem (h.index.eq_none_iff.mp hpos)
  | some pos => simp only [Server.deactivateSlot, hpos]

theorem deactivateSlot_addressToSlot (s : Server Key) (slot : Nat) :
    (s.deactivateSlot slot).addressToSlot = s.addressToSlot := by
  simp only [Server.deactivateSlot]
  split
  · rfl
  · rfl

theorem release_addressToSlot (C : Primitives Key Ct) (s : Server Key) (slot : Nat) :
    (s.release C slot).addressToSlot =
      (s.addressToSlot.remove fnv1a (s.connections slot).address).2 :=
  deactivateSlot_addressToSlot _ slot

section Tables

variable {C : Primitives Key Ct} {cfg : ServerConfig} {s s' : Server Key}

theorem Tables.release (h : Tables cfg s) {slot : Nat} (hmem : slot ∈ s.activeSlots) :
    Tables cfg (s.release C slot) := by
  have hgone := h.table.forgotten slot
  have hactive : ∀ i, i ∈ (s.release C slot).activeSlots ↔ i ≠ slot ∧ i ∈ s.activeSlots :=
    hgone.mem
  have hconn : ∀ i, i ≠ slot → (s.release C slot).connections i = s.connections i := by
    intro i hi
    rw [h.table.release_connections C slot, Function.update_of_ne hi]
  have hfree : (s.release C slot).freeSlots = slot :: s.freeSlots := by
    have hs : SlotTable { s with
        addressToSlot := (s.addressToSlot.remove fnv1a (s.connections slot).address).2 } :=
      h.table.congr rfl rfl rfl rfl
    exact deactivateSlot_freeSlots hs hmem
  refine ⟨h.table.release C slot, ?_, ?_, ?_⟩
  · intro i
    rw [hactive, hfree, List.mem_cons, ← h.slots i]
    by_cases hi : i = slot
    · subst hi
      simp [hmem]
    · simp [hi]
  · intro i hi j hj hid
    rw [hactive] at hi hj
    rw [hconn i hi.1, hconn j hj.1] at hid
    exact h.clientIds i hi.2 j hj.2 hid
  · obtain ⟨f, hrep, hsound⟩ := h.mapped
    rw [release_addressToSlot]
    refine ⟨_, (hrep.apply (.remove (s.connections slot).address)).2, ?_⟩
    intro k i hi
    -- The erased key is the only one that led to the slot.
    have hk : k ≠ rawBytes (s.connections slot).address := by
      rintro rfl
      rw [Bindings.apply, Finmap.lookup_erase] at hi
      exact Option.some_ne_none i hi.symm
    rw [Bindings.apply, Finmap.lookup_erase_ne hk] at hi
    obtain ⟨hmem', hkey⟩ := hsound k i hi
    have hne : i ≠ slot := by
      rintro rfl
      exact hk hkey.symm
    exact ⟨(hactive i).mpr ⟨hne, hmem'⟩, by rw [hconn i hne, hkey]⟩

theorem Tables.touch (h : Tables cfg s) {slot : Nat} {c : Connection Key}
    (hpeer : SamePeer (s.connections slot) c) : Tables cfg (s.setConnection slot c) := by
  have hid : ∀ i, ((s.setConnection slot c).connections i).clientId
      = (s.connections i).clientId := by
    intro i
    by_cases hi : i = slot
    · rw [hi, Server.setConnection_self, hpeer.clientId]
    · rw [Server.setConnection_of_ne s hi]
  have haddress : ∀ i, ((s.setConnection slot c).connections i).address
      = (s.connections i).address := by
    intro i
    by_cases hi : i = slot
    · rw [hi, Server.setConnection_self, hpeer.address]
    · rw [Server.setConnection_of_ne s hi]
  refine ⟨h.table.setConnection hpeer.active, h.slots, ?_, ?_⟩
  · intro i hi j hj heq
    rw [hid, hid] at heq
    exact h.clientIds i hi j hj heq
  · obtain ⟨f, hrep, hsound⟩ := h.mapped
    refine ⟨f, hrep, ?_⟩
    intro k i hi
    rw [haddress]
    exact hsound k i hi

/-- **A move keeps the tables.** -/
theorem Tables.move (h : Tables cfg s) (hmove : Move C s s') : Tables cfg s' := by
  cases hmove with
  | touch slot hpeer => exact h.touch hpeer
  | release hactive => exact h.release ((h.table.active _).mp hactive)
  | elsewhere hconn hactive hfree hindex hmap =>
    refine ⟨h.table.congr hconn hactive hfree hindex, ?_, ?_, ?_⟩
    · rw [hactive, hfree]
      exact h.slots
    · rw [hactive, hconn]
      exact h.clientIds
    · rw [hmap, hactive, hconn]
      exact h.mapped

/-- No active connection has an id that is not in use. -/
theorem Tables.clientId_ne (h : Tables cfg s) {clientId : Nat}
    (hunused : s.clientIdInUse cfg clientId = false) {i : Nat} (hi : i ∈ s.activeSlots) :
    (s.connections i).clientId ≠ clientId := by
  intro heq
  have hrange : i < cfg.maxClients := (h.slots i).mp (Or.inl hi)
  have hactive := (h.table.active i).mpr hi
  have hused : s.clientIdInUse cfg clientId = true := by
    refine List.any_eq_true.mpr ⟨i, List.mem_range.mpr hrange, ?_⟩
    simp [hactive, heq]
  rw [hunused] at hused
  cases hused

/-- **So does an admission.** -/
theorem Tables.admission (h : Tables cfg s) {from_ : Address}
    (hadm : Admission cfg s from_ s') : Tables cfg s' := by
  obtain @⟨slot, clientId, rest, fingerprints, c, hfree, hunused, hactive, haddress, hclient⟩ :=
    hadm
  have hs : SlotTable { s with fingerprintMap := fingerprints } := h.table.congr rfl rfl rfl rfl
  have hidle : slot ∉ s.activeSlots :=
    h.table.free slot (by rw [hfree]; exact List.mem_cons_self)
  have hne : ∀ i ∈ s.activeSlots, i ≠ slot := by
    rintro i hi rfl
    exact hidle hi
  generalize hres : (Server.activateSlot { s with fingerprintMap := fingerprints } from_
    slot).setConnection slot c = s₁
  have hself : s₁.connections slot = c := by
    rw [← hres, Server.setConnection_self]
  have hconn : ∀ i, i ≠ slot → s₁.connections i = s.connections i := by
    intro i hi
    rw [← hres, Server.setConnection_of_ne _ hi, Server.activateSlot]
  have hlist : s₁.activeSlots = s.activeSlots ++ [slot] := by
    rw [← hres, Server.setConnection, Server.activateSlot]
  have hstack : s₁.freeSlots = rest := by
    rw [← hres, Server.setConnection, Server.activateSlot, hfree, List.tail_cons]
  have hmap : s₁.addressToSlot = (s.addressToSlot.insert fnv1a from_ slot).2 := by
    rw [← hres, Server.setConnection, Server.activateSlot]
  refine ⟨?_, ?_, ?_, ?_⟩
  · rw [← hres]
    exact hs.activateSlot hfree from_ hactive
  · intro i
    rw [hlist, hstack, ← h.slots i, hfree, List.mem_append, List.mem_singleton, List.mem_cons,
      or_assoc]
  · intro i hi j hj hid
    rw [hlist, List.mem_append, List.mem_singleton] at hi hj
    rcases hi with hi | rfl
    · rw [hconn i (hne i hi)] at hid
      rcases hj with hj | rfl
      · rw [hconn j (hne j hj)] at hid
        exact h.clientIds i hi j hj hid
      · rw [hself, hclient] at hid
        exact absurd hid (h.clientId_ne hunused hi)
    · rcases hj with hj | rfl
      · rw [hself, hclient, hconn j (hne j hj)] at hid
        exact absurd hid.symm (h.clientId_ne hunused hj)
      · rfl
  · obtain ⟨f, hrep, hsound⟩ := h.mapped
    rw [hmap]
    refine ⟨_, (hrep.apply (.insert from_ slot)).2, ?_⟩
    intro k i hi
    -- When the map is full the insert fails, which the code ignores.
    rcases lookup_apply_insert hi with ⟨rfl, rfl⟩ | hold
    · exact ⟨by rw [hlist]; simp, by rw [hself, haddress]⟩
    · obtain ⟨hmem, hkey⟩ := hsound k i hold
      exact ⟨by rw [hlist]; exact List.mem_append_left _ hmem, by rw [hconn i (hne i hmem), hkey]⟩

/-! ### Data packets -/

theorem Tables.find_sound (h : Tables cfg s) {a : Address} {slot : Nat}
    (hfind : s.addressToSlot.find fnv1a a = some slot) :
    (s.connections slot).active = true ∧ (s.connections slot).address = a := by
  obtain ⟨f, hrep, hsound⟩ := h.mapped
  rw [hrep.find_eq] at hfind
  obtain ⟨hmem, hkey⟩ := hsound _ slot hfind
  exact ⟨(h.table.active slot).mpr hmem, rawBytes_address_inj hkey⟩

/-- **Whichever way a packet finds its slot, the slot is active and the sender's.** -/
theorem Tables.findSlot_sound (h : Tables cfg s) {from_ : Address} {wireSlot ctLen slot : Nat}
    (hfind : s.findSlot cfg from_ wireSlot ctLen = some slot) :
    (s.connections slot).active = true ∧
      addressEqual (s.connections slot).address from_ = true := by
  simp only [Server.findSlot] at hfind
  split at hfind
  · rename_i hfast
    obtain rfl := Option.some.inj hfind
    exact hfast.2.2
  · obtain ⟨hactive, haddress⟩ := h.find_sound hfind
    exact ⟨hactive, by rw [haddress, addressEqual_self]⟩

/-! ### Chains of moves -/

/-- A chain of moves, each from tables in order. -/
def Moves (C : Primitives Key Ct) (cfg : ServerConfig) : Server Key → Server Key → Prop :=
  Relation.ReflTransGen fun s s' => Tables cfg s ∧ Move C s s'

theorem Moves.keeps {P : Server Key → Prop}
    (hmove : ∀ s s', Tables cfg s → Move C s s' → P s → P s') (hmoves : Moves C cfg s s')
    (h : P s) : P s' := by
  induction hmoves with
  | refl => exact h
  | tail _ hlast ih => exact hmove _ _ hlast.1 hlast.2 ih

theorem Tables.moves (h : Tables cfg s) (hmoves : Moves C cfg s s') : Tables cfg s' :=
  hmoves.keeps (fun _ _ htables hmove _ => htables.move hmove) h

theorem handleDataPacket_moves (h : Tables cfg s) {slot : Nat}
    (hactive : (s.connections slot).active = true) (packet : Packet Ct) :
    Moves C cfg s (s.handleDataPacket C cfg slot packet).1 := by
  have hpeer := serverHandleDataPacket_samePeer C s.currentTime cfg.protocolId
    (s.connections slot) packet
  have htouch : Move C s (s.setConnection slot
      (serverHandleDataPacket C cfg.protocolId s.currentTime (s.connections slot) packet).1) :=
    .touch slot hpeer
  simp only [Server.handleDataPacket]
  split
  · refine .tail (.single ⟨h, htouch⟩) ⟨h.move htouch, .release ?_⟩
    rw [Server.setConnection_self, hpeer.active, hactive]
  · exact .single ⟨h, htouch⟩

theorem checkTimeouts_moves (fuel a : Nat) (h : Tables cfg s) :
    Moves C cfg s (Server.checkTimeouts C fuel a s) := by
  refine checkTimeouts_rule (P := Moves C cfg s) ?_ fuel a s .refl
  intro t slot hmoves hmem
  have ht := h.moves hmoves
  exact .tail hmoves ⟨ht, .release ((ht.table.active slot).mpr hmem)⟩

/-- A round of the timeout check shortens the active list or moves on in it, so its length
is fuel enough. -/
theorem checkTimeouts_stops (fuel extra : Nat) :
    ∀ (a : Nat) (s : Server Key), Tables cfg s → s.activeSlots.length ≤ a + fuel →
      Server.checkTimeouts C (fuel + extra) a s = Server.checkTimeouts C fuel a s := by
  induction fuel with
  | zero =>
    intro a s _ hlen
    cases extra with
    | zero => rfl
    | succ extra =>
      rw [Nat.zero_add]
      conv_lhs => rw [Server.checkTimeouts, List.getElem?_eq_none (by omega)]
      rfl
  | succ fuel ih =>
    intro a s h hlen
    rw [Nat.add_right_comm, Server.checkTimeouts, Server.checkTimeouts]
    split
    · rfl
    · rename_i slot hat
      have hmem := List.mem_of_getElem? hat
      split
      · refine ih a _ (h.release hmem) ?_
        have hshort := h.table.release_length C hmem
        omega
      · exact ih (a + 1) s h (by omega)

theorem processSlots_moves (slots : List Nat) (h : Tables cfg s) :
    Moves C cfg s (Server.processSlots C cfg s slots).1 := by
  refine processSlots_rule (P := Moves C cfg s) ?_ slots s .refl
  intro t slot hmoves
  exact .tail hmoves ⟨h.moves hmoves, .touch slot (serverUpdateConnection_samePeer C
    t.currentTime cfg.protocolId t.dt (t.connections slot))⟩

theorem finishUpdate_moves (h : Tables cfg s) : Moves C cfg s (s.finishUpdate C cfg).1 := by
  have htimeouts := checkTimeouts_moves (C := C) s.activeSlots.length 0 h
  have hchecked := h.moves htimeouts
  have hslots := fun slots => processSlots_moves (C := C) slots hchecked
  exact .tail (htimeouts.trans (hslots _))
    ⟨hchecked.moves (hslots _), .elsewhere rfl rfl rfl rfl rfl⟩

theorem onConnection_moves (h : Tables cfg s) (slot : Nat)
    {call : Connection Key → Connection Key × List (SendAction Key Ct)}
    (hpeer : ∀ c, SamePeer c (call c).1) : Moves C cfg s (s.onConnection cfg slot call).1 := by
  simp only [Server.onConnection]
  split
  · exact .refl
  · exact .single ⟨h, .touch slot (hpeer _)⟩

theorem isRequest_of_length {packet : Bytes} (hhead : packet.headD 0 = 0)
    (hlen : packet.length = Server.requestLength) : Server.isRequest packet = true := by
  rw [Server.isRequest, hhead, hlen]
  rfl

theorem openRequest_eq_some_iff {T : TokenOps Key} {now : Time} {packet : Bytes}
    {token : PrivateConnectToken Key} :
    Server.openRequest T cfg now packet = some token ↔
      packet.length = Server.requestLength ∧ readAt packet 1 13 = versionInfo ∧
        leNat (readAt packet 14 8) = cfg.protocolId ∧
        now.floor.toNat < leNat (readAt packet 22 8) ∧
        T.openPrivate (readAt packet 30 24) (readAt packet 1 29) (readAt packet 54 1024) =
          some token := by
  simp only [Server.openRequest, Option.ite_none_left_eq_some, ne_eq, not_not, not_le]
  exact Iff.rfl

/-- All checks of a request, taken apart: those on its bytes, and those on the server. -/
theorem passesChecks_eq_some_iff {T : TokenOps Key} {from_ : Address} {packet : Bytes}
    {token : PrivateConnectToken Key} :
    s.passesChecks T cfg from_ packet = some token ↔
      Server.openRequest T cfg s.currentTime packet = some token ∧
        s.clientIdInUse cfg token.clientId = false ∧
        s.fingerprintRefuses T from_ packet = false := by
  rw [Server.passesChecks]
  cases Server.openRequest T cfg s.currentTime packet with
  | none => simp
  | some opened =>
    simp only [Option.some.injEq]
    constructor
    · intro h
      split at h
      · cases h
      split at h
      · cases h
      · rename_i hid hrefused
        obtain rfl := Option.some.inj h
        exact ⟨rfl, Bool.eq_false_iff.mpr hid, Bool.eq_false_iff.mpr hrefused⟩
    · rintro ⟨rfl, hid, hrefused⟩
      rw [hid, hrefused]
      rfl

theorem handleConnectionRequest_cases (T : TokenOps Key) (h : Tables cfg s) (from_ : Address)
    {packet : Bytes} (hrequest : Server.isRequest packet = true) :
    (∃ admitted, s.admits T cfg from_ packet = some admitted ∧
        Admission cfg s from_ (s.handleConnectionRequest C T cfg from_ packet).1) ∨
      Moves C cfg s (s.handleConnectionRequest C T cfg from_ packet).1 := by
  simp only [Server.handleConnectionRequest]
  cases hpass : s.passesChecks T cfg from_ packet with
  | none => exact Or.inr .refl
  | some token =>
    have hstack : (s.rememberToken T from_ packet).freeSlots = s.freeSlots := rfl
    simp only [hstack]
    cases hfree : s.freeSlots with
    | nil => exact Or.inr (.single ⟨h, .elsewhere rfl rfl rfl rfl rfl⟩)
    | cons slot rest =>
      refine Or.inl ⟨(slot, token), ?_, ?_⟩
      · rw [Server.admits, if_pos hrequest, hpass, hfree]
      · have hunused := (passesChecks_eq_some_iff.mp hpass).2.1
        obtain ⟨hactive, haddress, hclient⟩ := serverAccept_peer C cfg s.currentTime slot
          (s.connections slot) from_ token
        exact .into hfree hunused hactive haddress hclient

/-- **A step of the server admits a client or is a chain of moves.** -/
theorem serverStep_cases (T : TokenOps Key) (h : Tables cfg s) (ev : ServerEvent Ct) :
    (∃ from_ packet admitted, ev = .dispatch from_ (.request packet) ∧
        s.admits T cfg from_ packet = some admitted ∧
        Admission cfg s from_ (serverStep C T cfg s ev).1) ∨
      Moves C cfg s (serverStep C T cfg s ev).1 := by
  cases ev with
  | beginUpdate time => exact Or.inr (.single ⟨h, .elsewhere rfl rfl rfl rfl rfl⟩)
  | dispatch from_ packet =>
    cases packet with
    | request packet =>
      simp only [serverStep, Server.dispatchPacket]
      split
      · rename_i hrequest
        rcases handleConnectionRequest_cases T h from_ hrequest with
          ⟨admitted, hadmits, hadmission⟩ | hmoves
        · exact Or.inl ⟨from_, packet, admitted, rfl, hadmits, hadmission⟩
        · exact Or.inr hmoves
      · exact Or.inr .refl
    | data wireSlot packet =>
      refine Or.inr ?_
      simp only [serverStep, Server.dispatchPacket]
      split
      · split
        · exact .refl
        · rename_i slot hfind
          exact handleDataPacket_moves h (h.findSlot_sound hfind).1 packet
      · exact .refl
  | finishUpdate => exact Or.inr (finishUpdate_moves h)
  | send slot channel data flags =>
    exact Or.inr (onConnection_moves h slot fun c =>
      serverSend_samePeer C s.currentTime cfg.protocolId c channel data flags)
  | sendState slot channel entityId data =>
    exact Or.inr (onConnection_moves h slot fun c =>
      serverSendState_samePeer s.currentTime c channel entityId data)
  | flush slot =>
    exact Or.inr (onConnection_moves h slot fun c =>
      serverFlush_samePeer C s.currentTime cfg.protocolId c)

end Tables

/-! ### Runs -/

section Runs

variable (C : Primitives Key Ct) (T : TokenOps Key) (cfg : ServerConfig)

/-- The server after the events. -/
def Server.after (time : Time) (es : List (ServerEvent Ct)) : Server Key :=
  run (fun s ev => (serverStep C T cfg s ev).1) (.start C cfg time) es

theorem tables_step {s : Server Key} (h : Tables cfg s) (ev : ServerEvent Ct) :
    Tables cfg (serverStep C T cfg s ev).1 := by
  rcases serverStep_cases (C := C) T h ev with ⟨from_, packet, admitted, -, -, hadmission⟩ | hmoves
  · exact h.admission hadmission
  · exact h.moves hmoves

theorem tables_after (time : Time) (es : List (ServerEvent Ct)) :
    Tables cfg (Server.after C T cfg time es) :=
  run_invariant' (Tables cfg) (fun _ ev h => tables_step C T cfg h ev) es
    (tables_start C cfg time)

/-- **In every reachable state the slot table is whole**: the active and the free slots
are duplicate-free, disjoint and together all slots, the index is the inverse of the
active list, the flags are those of the active slots, and no two active slots have one
client id. -/
theorem slot_table_whole (time : Time) (es : List (ServerEvent Ct)) :
    let s := Server.after C T cfg time es
    s.activeSlots.Nodup ∧ s.freeSlots.Nodup ∧ s.activeSlots.Disjoint s.freeSlots ∧
      (∀ i, i ∈ s.activeSlots ∨ i ∈ s.freeSlots ↔ i < cfg.maxClients) ∧
      (∀ i p, s.slotToActive i = some p ↔ s.activeSlots[p]? = some i) ∧
      (∀ i, s.slotToActive i = none ↔ i ∉ s.activeSlots) ∧
      (∀ i, (s.connections i).active = true ↔ i ∈ s.activeSlots) ∧
      ∀ i ∈ s.activeSlots, ∀ j ∈ s.activeSlots,
        (s.connections i).clientId = (s.connections j).clientId → i = j := by
  intro s
  have h : Tables cfg s := tables_after C T cfg time es
  refine ⟨h.table.index.nodup, h.table.freeNodup, ?_, h.slots, h.table.index,
    fun i => h.table.index.eq_none_iff, h.table.active, h.clientIds⟩
  intro i hi hfree
  exact h.table.free i hfree hi

end Runs

end Netudp
