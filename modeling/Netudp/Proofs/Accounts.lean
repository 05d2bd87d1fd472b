/-
The server's accounts of its keys.

The slots of the server are the parties of a keyring: accepting a token and rekeying
install a key in a slot, and every packet sent is a use of the slot's key.  `Accounts`
says that the keyring read off the server's log agrees with the connections, and every
event keeps it, whatever the order of requests, packets, sends, timeouts and rekeys.
That needs no assumption about the keys.
-/
import Netudp.Lib.Keyring
import Netudp.Proofs.KeyUse
import Netudp.Proofs.SlotTable

namespace Netudp

open Lib

variable {Key Ct : Type}

/-! ### What the log says about keys -/

/-- The key and nonce of every packet encrypted. -/
def noncePairs (log : List (ServerAction Key Ct)) : List (Key × Nat) :=
  log.filterMap fun
    | .did _ (.emitted key nonce _ _) => some (key, nonce)
    | _ => none

@[simp] theorem noncePairs_append (as bs : List (ServerAction Key Ct)) :
    noncePairs (as ++ bs) = noncePairs as ++ noncePairs bs :=
  List.filterMap_append

/-- What an action means for the keyring. -/
def keyEvent : ServerAction Key Ct → Option (KeyEvent Nat Key)
  | .accepted slot _ token => some (.install slot token.serverToClientKey)
  | .did slot (.emitted _ _ _ _) => some (.use slot)
  | .did slot (.rekeyed key) => some (.install slot key)
  | .did _ (.dequeued _ _) => none
  | .did _ (.recorded _ _ _) => none

/-- The keyring after the log. -/
def keyring (log : List (ServerAction Key Ct)) : Keyring Nat Key :=
  run Keyring.step .empty (log.filterMap keyEvent)

theorem keyring_concat (log : List (ServerAction Key Ct)) (a : ServerAction Key Ct) :
    keyring (log ++ [a]) =
      match keyEvent a with
      | none => keyring log
      | some ev => (keyring log).step ev := by
  unfold keyring
  rw [List.filterMap_append, run_append]
  cases h : keyEvent a with
  | none => simp [h]
  | some ev => simp [h]

/-! ### One slot at a time -/

/-- The slot acts: other slots keep their keys, and unless a packet is sent nothing is
used. -/
theorem keyring_did (log : List (ServerAction Key Ct)) (slot : Nat) (a : SendAction Key Ct) :
    (∀ j, j ≠ slot → (keyring (log ++ [.did slot a])).holds j = (keyring log).holds j) ∧
      ((∀ key nonce payload packet, a ≠ .emitted key nonce payload packet) →
        (keyring (log ++ [.did slot a])).used = (keyring log).used ∧
          noncePairs (log ++ [.did slot a]) = noncePairs log) := by
  rw [keyring_concat]
  cases a with
  | dequeued ch msg =>
    exact ⟨fun _ _ => rfl, fun _ => ⟨rfl, by simp [noncePairs]⟩⟩
  | recorded ch seq data =>
    exact ⟨fun _ _ => rfl, fun _ => ⟨rfl, by simp [noncePairs]⟩⟩
  | rekeyed key =>
    refine ⟨?_, fun _ => ⟨rfl, by simp [noncePairs]⟩⟩
    intro j hj
    exact Function.update_of_ne hj _ _
  | emitted key nonce payload packet =>
    refine ⟨?_, fun h => absurd rfl (h key nonce payload packet)⟩
    intro j hj
    simp only [keyEvent, Keyring.step]
    split
    · rfl
    · exact Function.update_of_ne hj _ _

theorem keyring_quiet (slot : Nat) (acts : List (SendAction Key Ct)) :
    ∀ log : List (ServerAction Key Ct),
      (∀ key nonce payload packet, .emitted key nonce payload packet ∉ acts) →
      (keyring (log ++ acts.map (.did slot))).used = (keyring log).used ∧
        noncePairs (log ++ acts.map (.did slot)) = noncePairs log ∧
        ∀ j, j ≠ slot →
          (keyring (log ++ acts.map (.did slot))).holds j = (keyring log).holds j := by
  induction acts with
  | nil => intro log _; simp
  | cons a rest ih =>
    intro log hquiet
    obtain ⟨hothers, hused⟩ := keyring_did log slot a
    obtain ⟨husedA, hpairsA⟩ := hused fun key nonce payload packet h =>
      hquiet key nonce payload packet (h ▸ List.mem_cons_self)
    obtain ⟨h1, h2, h3⟩ := ih (log ++ [.did slot a]) fun key nonce payload packet h =>
      hquiet key nonce payload packet (List.mem_cons_of_mem _ h)
    rw [List.map_cons, List.append_cons]
    exact ⟨h1.trans husedA, h2.trans hpairsA, fun j hj => (h3 j hj).trans (hothers j hj)⟩

/-- **A slot that follows its actions keeps its account.** -/
theorem keyring_uses (slot : Nat) (acts : List (SendAction Key Ct)) :
    ∀ (log : List (ServerAction Key Ct)) (held : Key × Nat),
      Along keyAfter UsesHeld held acts → (keyring log).holds slot = some held →
      (keyring log).used = noncePairs log →
      (noncePairs (log ++ acts.map (.did slot))).length < u64Size →
      (keyring (log ++ acts.map (.did slot))).holds slot = some (run keyAfter held acts) ∧
        (keyring (log ++ acts.map (.did slot))).used =
          noncePairs (log ++ acts.map (.did slot)) ∧
        ∀ j, j ≠ slot →
          (keyring (log ++ acts.map (.did slot))).holds j = (keyring log).holds j := by
  induction acts with
  | nil =>
    intro log held _ hheld hused _
    simpa using ⟨hheld, hused⟩
  | cons a rest ih =>
    intro log held huses hheld hused hlen
    obtain ⟨hothers, hquiet⟩ := keyring_did log slot a
    rw [List.map_cons, List.append_cons] at hlen ⊢
    -- One action: what is held afterwards, and that a packet was charged to it.
    have hone : (keyring (log ++ [.did slot a])).holds slot = some (keyAfter held a) ∧
        (keyring (log ++ [.did slot a])).used = noncePairs (log ++ [.did slot a]) := by
      cases a with
      | dequeued ch msg =>
        obtain ⟨h1, h2⟩ := hquiet (by simp)
        rw [h1, h2, keyring_concat]
        exact ⟨hheld, hused⟩
      | recorded ch seq data =>
        obtain ⟨h1, h2⟩ := hquiet (by simp)
        rw [h1, h2, keyring_concat]
        exact ⟨hheld, hused⟩
      | rekeyed key =>
        obtain ⟨h1, h2⟩ := hquiet (by simp)
        rw [h1, h2, keyring_concat]
        exact ⟨Function.update_self _ _ _, hused⟩
      | emitted key nonce payload packet =>
        obtain rfl : (key, nonce) = held := huses.1
        have hle : nonce ≤ (noncePairs log).length := by
          rw [← hused]
          exact Keyring.counter_le_uses _ hheld
        have hwrap : (nonce + 1) % u64Size = nonce + 1 := by
          refine Nat.mod_eq_of_lt ?_
          rw [noncePairs_append, noncePairs_append] at hlen
          simp only [List.length_append, noncePairs, List.filterMap_cons,
            List.filterMap_nil, List.length_cons, List.length_nil] at hlen hle
          omega
        rw [keyring_concat]
        simp only [keyEvent, Keyring.step_use hheld, keyAfter, hwrap]
        refine ⟨Function.update_self _ _ _, ?_⟩
        rw [hused, noncePairs_append]
        rfl
    obtain ⟨h1, h2, h3⟩ := ih (log ++ [.did slot a]) (keyAfter held a) huses.2 hone.1 hone.2 hlen
    exact ⟨h1, h2, fun j hj => (h3 j hj).trans (hothers j hj)⟩

/-! ### The server's accounts -/

/-- Every pair the log shows is a use of the keyring, and each active connection holds
the key and counter the keyring has for its slot. -/
structure Accounts (s : Server Key) (log : List (ServerAction Key Ct)) : Prop where
  table : SlotTable s
  used : (keyring log).used = noncePairs log
  holds : ∀ i, (s.connections i).active = true →
    (keyring log).holds i = some (s.connections i).keyEpoch.tx

/-- The accounts are in order after the step, up to the last packet a counter can
number. -/
def Keeps (log : List (ServerAction Key Ct)) (out : Server Key × List (ServerAction Key Ct)) :
    Prop :=
  (noncePairs (log ++ out.2)).length < u64Size → Accounts out.1 (log ++ out.2)

namespace Accounts

variable {s : Server Key} {log : List (ServerAction Key Ct)}

theorem start (C : Primitives Key Ct) (cfg : ServerConfig) (time : Time) :
    Accounts (Server.start C cfg time) ([] : List (ServerAction Key Ct)) where
  table := slotTable_start C cfg time
  used := rfl
  holds i h := by cases h

theorem congr (h : Accounts s log) {s' : Server Key} (hc : s'.connections = s.connections)
    (ha : s'.activeSlots = s.activeSlots) (hf : s'.freeSlots = s.freeSlots)
    (hi : s'.slotToActive = s.slotToActive) : Accounts s' log where
  table := h.table.congr hc ha hf hi
  used := h.used
  holds i := by rw [hc]; exact h.holds i

/-- A step without an action. -/
theorem keeps (h : Accounts s log) : Keeps log (s, ([] : List (ServerAction Key Ct))) := by
  intro _
  rw [List.append_nil]
  exact h

/-- The slot does something, and is idle only if it sends nothing. -/
theorem act (h : Accounts s log) {slot : Nat} {c : Connection Key}
    {acts : List (SendAction Key Ct)} (hf : Follows (s.connections slot) acts c)
    (hidle : (s.connections slot).active = false →
      ∀ key nonce payload packet, .emitted key nonce payload packet ∉ acts) :
    Keeps log (s.setConnection slot c, acts.map (.did slot)) := by
  intro hlen
  have htable := h.table.setConnection hf.active
  cases hact : (s.connections slot).active with
  | true =>
    obtain ⟨hheld, hused, hothers⟩ :=
      keyring_uses slot acts log _ hf.uses (h.holds slot hact) h.used hlen
    refine ⟨htable, hused, ?_⟩
    intro i hi
    by_cases his : i = slot
    · subst his
      rw [Server.setConnection_self, hheld, hf.after]
    · rw [Server.setConnection_of_ne s his] at hi ⊢
      rw [hothers i his]
      exact h.holds i hi
  | false =>
    obtain ⟨hused, hpairs, hothers⟩ := keyring_quiet slot acts log (hidle hact)
    refine ⟨htable, hused.trans (h.used.trans hpairs.symm), ?_⟩
    intro i hi
    by_cases his : i = slot
    · subst his
      rw [Server.setConnection_self, hf.active, hact] at hi
      cases hi
    · rw [Server.setConnection_of_ne s his] at hi ⊢
      rw [hothers i his]
      exact h.holds i hi

theorem release (C : Primitives Key Ct) (h : Accounts s log) (slot : Nat) :
    Accounts (s.release C slot) log := by
  refine ⟨h.table.release C slot, h.used, ?_⟩
  intro i hi
  rw [h.table.release_connections C slot] at hi ⊢
  by_cases his : i = slot
  · subst his
    rw [Function.update_self] at hi
    cases hi
  · rw [Function.update_of_ne his] at hi ⊢
    exact h.holds i hi

theorem accept (cfg : ServerConfig) (h : Accounts s log) {slot : Nat} {rest : List Nat}
    (hfree : s.freeSlots = slot :: rest) (now : Time) (from_ : Address) (request : Bytes)
    (token : PrivateConnectToken Key) {c : Connection Key} {acts : List (SendAction Key Ct)}
    (hf : Follows ((s.connections slot).establish cfg now slot from_ token) acts c) :
    Keeps log ((s.activateSlot from_ slot).setConnection slot c,
      .accepted slot request token :: acts.map (.did slot)) := by
  simp only [Keeps]
  rw [List.append_cons]
  intro hlen
  have hactive : c.active = true := hf.active
  -- The token's key is in force, and nothing has been encrypted under it yet.
  have hkeyed : keyring (log ++ [.accepted slot request token]) =
      (keyring log).step (.install slot token.serverToClientKey) := keyring_concat log _
  have hheld : (keyring (log ++ [.accepted slot request token])).holds slot =
      some ((s.connections slot).establish cfg now slot from_ token).keyEpoch.tx := by
    rw [hkeyed]
    exact Function.update_self _ _ _
  have hused : (keyring (log ++ [.accepted slot request token])).used =
      noncePairs (log ++ [.accepted slot request token]) := by
    rw [hkeyed, noncePairs_append]
    exact h.used.trans (List.append_nil _).symm
  obtain ⟨hheld', hused', hothers⟩ := keyring_uses slot acts _ _ hf.uses hheld hused hlen
  refine ⟨h.table.activateSlot hfree from_ hactive, hused', ?_⟩
  intro i hi
  by_cases his : i = slot
  · subst his
    rw [Server.setConnection_self, hheld', hf.after]
  · rw [Server.setConnection_of_ne _ his] at hi ⊢
    rw [hothers i his, hkeyed]
    exact (Function.update_of_ne his _ _).trans (h.holds i hi)

/-! ### What each event does to them -/

variable (C : Primitives Key Ct) (T : TokenOps Key) (cfg : ServerConfig)

theorem handleConnectionRequest (h : Accounts s log) (from_ : Address) (packet : Bytes) :
    Keeps log (s.handleConnectionRequest C T cfg from_ packet) := by
  simp only [Server.handleConnectionRequest]
  split
  · exact h.keeps
  · rename_i token _
    have hs : Accounts (s.rememberToken T from_ packet) log := h.congr rfl rfl rfl rfl
    split
    · exact hs.keeps
    · rename_i slot rest hfree
      exact hs.accept cfg hfree _ from_ packet token
        ((follows_callKeeps C _ _).serverSendAccept slot _)

theorem handleDataPacket (h : Accounts s log) (slot : Nat) (packet : Packet Ct) :
    Keeps log (s.handleDataPacket C cfg slot packet) := by
  have hact := h.act (serverHandleDataPacket_follows C s.currentTime cfg.protocolId
    (s.connections slot) packet) (by
      intro _ key nonce payload packet'
      unfold rekeyedTo
      split
      · simp
      · simp)
  intro hlen
  simp only [Server.handleDataPacket]
  split
  · exact (hact hlen).release C slot
  · exact hact hlen

theorem dispatchPacket (h : Accounts s log) (from_ : Address) (packet : Incoming Ct) :
    Keeps log (s.dispatchPacket C T cfg from_ packet) := by
  cases packet with
  | request packet =>
    simp only [Server.dispatchPacket]
    split
    · exact h.handleConnectionRequest C T cfg from_ packet
    · exact h.keeps
  | data wireSlot packet =>
    simp only [Server.dispatchPacket]
    split
    · split
      · exact h.keeps
      · exact h.handleDataPacket C cfg _ packet
    · exact h.keeps

theorem processSlots (slots : List Nat) :
    ∀ (s : Server Key) (log : List (ServerAction Key Ct)), Accounts s log →
      (∀ i ∈ slots, (s.connections i).active = true) →
      Keeps log (Server.processSlots C cfg s slots) := by
  induction slots with
  | nil => exact fun s log h _ => h.keeps
  | cons slot rest ih =>
    intro s log h hactive hlen
    have hf := (follows_callKeeps C cfg.protocolId s.currentTime).serverUpdateConnection s.dt
      (s.connections slot)
    simp only [Server.processSlots] at hlen ⊢
    rw [← List.append_assoc] at hlen ⊢
    -- The packets of this slot are among those counted in the end.
    have hone := h.act hf (fun hidle => by
      rw [hactive slot List.mem_cons_self] at hidle
      cases hidle) (by
        rw [noncePairs_append, List.length_append] at hlen
        exact Nat.lt_of_le_of_lt (Nat.le_add_right _ _) hlen)
    refine ih _ _ hone ?_ hlen
    intro i hi
    by_cases his : i = slot
    · subst his
      rw [Server.setConnection_self, hf.active]
      exact hactive i List.mem_cons_self
    · rw [Server.setConnection_of_ne s his]
      exact hactive i (List.mem_cons_of_mem _ hi)

theorem finishUpdate (h : Accounts s log) : Keeps log (s.finishUpdate C cfg) := by
  intro hlen
  have hs := checkTimeouts_rule (P := fun t => Accounts t log) (fun _ slot ht _ => ht.release C slot)
    s.activeSlots.length 0 s h
  refine (processSlots C cfg _ _ log hs ?_ hlen).congr rfl rfl rfl rfl
  intro i hi
  exact (hs.table.active i).mpr (List.mem_of_mem_drop (List.mem_of_mem_take hi))

theorem onConnection (h : Accounts s log) (slot : Nat)
    {call : Connection Key → Connection Key × List (SendAction Key Ct)}
    (hf : ∀ c, Follows c (call c).2 (call c).1)
    (hidle : ∀ c : Connection Key, c.active = false → (call c).2 = []) :
    Keeps log (s.onConnection cfg slot call) := by
  simp only [Server.onConnection]
  split
  · exact h.keeps
  · refine h.act (hf _) ?_
    intro hact key nonce payload packet
    rw [hidle _ hact]
    exact List.not_mem_nil

/-- **Every event keeps the accounts.** -/
theorem serverStep (h : Accounts s log) (ev : ServerEvent Ct) :
    Keeps log (serverStep C T cfg s ev) := by
  cases ev with
  | beginUpdate time =>
    have hs : Accounts { s with dt := time - s.currentTime, currentTime := time } log :=
      h.congr rfl rfl rfl rfl
    exact hs.keeps
  | dispatch from_ packet => exact h.dispatchPacket C T cfg from_ packet
  | finishUpdate => exact h.finishUpdate C cfg
  | send slot channel data flags =>
    refine h.onConnection cfg slot
      (fun c => (follows_callKeeps C _ _).serverSend c channel data flags) ?_
    intro c hc
    simp [serverSend, hc]
  | sendState slot channel entityId data =>
    exact h.onConnection cfg slot
      (fun c => (follows_callKeeps C cfg.protocolId _).serverSendState c channel entityId data)
      fun _ _ => rfl
  | flush slot =>
    refine h.onConnection cfg slot
      (fun c => (follows_callKeeps C _ _).serverFlush c) ?_
    intro c hc
    simp [serverFlush, hc]

end Accounts

end Netudp
