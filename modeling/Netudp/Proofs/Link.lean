/-
One direction of an established connection over a lossy network.

One endpoint encrypts packets, the network drops, duplicates and reorders them, and
the other endpoint's handler tries to open whatever arrives.  No rekey happens.

The receiver reconstructs the nonce from its own window, so it opens a packet only
when every earlier one has arrived: `step_of_inOrder` says a schedule that
delivers first copies in order loses nothing, and the converse that any other
schedule makes the receiver drop a genuine packet that is well inside the window.
-/
import Netudp.Connection.Connection
import Netudp.Proofs.Endpoint

namespace Netudp

open Lib ReplayProtection

variable {Key Ct : Type} {C : Primitives Key Ct} {pid : Nat} {ep : Endpoint}

/-! ### The system -/

/-- What an endpoint sends without rekeying. -/
inductive PacketKind where
  | data
  | keepalive

/-- The prefix of each kind. -/
def PacketKind.prefixByte : PacketKind → UInt8
  | .data => prefixData
  | .keepalive => prefixKeepalive

theorem PacketKind.prefixByte_ne (k : PacketKind) : k.prefixByte ≠ packetPrefixDataRekey := by
  cases k <;> decide

/-- A packet, with the nonce it was encrypted under. -/
structure SentPacket (Ct : Type) where
  nonce : Nat
  packet : Packet Ct

/-- The sender, the receiver, and the network's memory: every packet sent, in order,
and the positions of those that have arrived and of those that were accepted. -/
structure Link (Key Ct : Type) where
  sender : KeyEpoch Key
  receiver : KeyEpoch Key
  sent : List (SentPacket Ct)
  arrived : List Nat
  accepted : List Nat

inductive LinkEvent where
  | send (kind : PacketKind) (pt : Bytes)
  /-- A copy of the `i`-th packet sent reaches the receiver. -/
  | arrive (i : Nat) (now : Time)

def Link.send (C : Primitives Key Ct) (pid : Nat) (l : Link Key Ct) (kind : PacketKind)
    (pt : Bytes) : Link Key Ct :=
  match packetEncrypt C l.sender pid kind.prefixByte pt with
  | (none, e) => { l with sender := e }
  | (some ct, e) =>
    { l with
      sender := e
      sent := l.sent ++ [⟨l.sender.txNonceCounter, kind.prefixByte, ct⟩] }

def Link.arrive (C : Primitives Key Ct) (pid : Nat) (ep : Endpoint) (l : Link Key Ct) (i : Nat)
    (now : Time) : Link Key Ct :=
  match l.sent[i]? with
  | none => l
  | some p =>
    match ep.openPacket C pid now l.receiver p.packet with
    | (none, e) => { l with receiver := e, arrived := i :: l.arrived }
    | (some _, e) =>
      { l with receiver := e, arrived := i :: l.arrived, accepted := i :: l.accepted }

/-- `ep` is the endpoint that receives. -/
def linkStep (C : Primitives Key Ct) (pid : Nat) (ep : Endpoint) (l : Link Key Ct) :
    LinkEvent → Link Key Ct
  | .send kind pt => l.send C pid kind pt
  | .arrive i now => l.arrive C pid ep i now

/-- The link when the connection has been established: the server has sent the
connection-accepted keepalive, and the client has opened it. -/
def Link.established (C : Primitives Key Ct) (pid : Nat) (clientToServer serverToClient : Key)
    (accept : Bytes) : Endpoint → Link Key Ct
  | .server =>
    { sender := clientKeySetup C clientToServer serverToClient
      receiver := (sealKeepalive C pid (serverKeySetup C clientToServer serverToClient)
        accept).2
      sent := []
      arrived := []
      accepted := [] }
  | .client =>
    let opening : Link Key Ct :=
      { sender := serverKeySetup C clientToServer serverToClient
        receiver := clientKeySetup C clientToServer serverToClient
        sent := []
        arrived := []
        accepted := [] }
    let l := opening.send C pid .keepalive accept
    match l.sent with
    | [] => l
    | p :: _ =>
      { l with
        receiver := (clientOpenAccept C pid l.receiver p.packet).2
        arrived := [0]
        accepted := [0] }

/-! ### The property and the condition -/

/-- A genuine packet that arrives for the first time, less than 256 behind every
accepted one, is opened. -/
def Tolerates (C : Primitives Key Ct) (pid : Nat) (ep : Endpoint) (l : Link Key Ct) :
    LinkEvent → Prop
  | .send _ _ => True
  | .arrive i now =>
    ∀ p, l.sent[i]? = some p → i ∉ l.arrived →
      (∀ j ∈ l.accepted, ∀ q, l.sent[j]? = some q → q.nonce < p.nonce + windowSize) →
      (ep.openPacket C pid now l.receiver p.packet).1.isSome = true

/-- A packet arrives only after every packet sent before it, and below the wrap. -/
def ArrivesInOrder (l : Link Key Ct) : LinkEvent → Prop
  | .send _ _ => True
  | .arrive i _ => i < l.sent.length → (∀ k, k < i → k ∈ l.arrived) ∧ i < 2 ^ 64 - 256

instance (l : Link Key Ct) : ∀ ev, Decidable (ArrivesInOrder l ev)
  | .send _ _ => isTrue trivial
  | .arrive _ _ => inferInstanceAs (Decidable (_ → _))

/-! ### The invariant

Sender and receiver move in lock step: the packets at positions below `m`, and only
those, have arrived, and all of them were accepted.
-/

structure LockStep (C : Primitives Key Ct) (pid : Nat) (ep : Endpoint) (l : Link Key Ct)
    (m : Nat) : Prop where
  keys : l.receiver.rxKey = l.sender.txKey
  closed : l.receiver.gracePacketsRemaining ≤ 0
  counter : l.sender.txNonceCounter = l.sent.length % u64Size
  nonce : ∀ (i : Nat) (p : SentPacket Ct), l.sent[i]? = some p → p.nonce = i % u64Size
  kind : ∀ (i : Nat) (p : SentPacket Ct), l.sent[i]? = some p →
    p.packet.prefixByte ≠ packetPrefixDataRekey
  genuine : ∀ (i : Nat) (p : SentPacket Ct), l.sent[i]? = some p →
    ∃ pt, Genuine C pid l.sender.txKey p.nonce p.packet pt
  window : UpTo l.receiver.replay m
  arrived : ∀ i, i ∈ l.arrived ↔ i < m
  accepted : ∀ i, i ∈ l.accepted ↔ i < m
  connected : ep = .client → 0 < m

theorem LockStep.le {l : Link Key Ct} {m : Nat} (h : LockStep C pid ep l m) :
    m ≤ 2 ^ 64 - 256 := by
  have hle := h.window.le
  unfold windowSize u64Size at hle
  omega

theorem LockStep.open_eq (hC : C.Ideal) {l : Link Key Ct} {m : Nat}
    (h : LockStep C pid ep l m) {i : Nat} {p : SentPacket Ct} (hp : l.sent[i]? = some p)
    (now : Time) :
    ∃ pt, ep.openPacket C pid now l.receiver p.packet =
      if i % u64Size = m ∧ Unwrapped m then (some pt, l.receiver.received m)
      else (none, l.receiver) := by
  obtain ⟨pt, hgen⟩ := h.genuine i p hp
  refine ⟨pt, ?_⟩
  rw [← h.keys, h.nonce i p hp] at hgen
  exact openPacket_genuine hC ep now h.window h.connected h.closed (h.kind i p hp)
    (Nat.mod_lt _ (by decide)) hgen

/-- A position of a list with one more element is an old one or the new one. -/
private theorem getElem?_concat {α : Type} {xs : List α} {x y : α} {i : Nat}
    (h : (xs ++ [x])[i]? = some y) : xs[i]? = some y ∨ (i = xs.length ∧ y = x) := by
  have hbound : i < (xs ++ [x]).length := (List.getElem?_eq_some_iff.mp h).1
  rw [List.length_append, List.length_singleton] at hbound
  by_cases hlt : i < xs.length
  · rw [List.getElem?_append_left hlt] at h
    exact Or.inl h
  · have hieq : i = xs.length := by omega
    subst hieq
    rw [List.getElem?_concat_length, Option.some.injEq] at h
    exact Or.inr ⟨rfl, h.symm⟩

theorem send_lockStep (hC : C.Ideal) {l : Link Key Ct} {m : Nat} (h : LockStep C pid ep l m)
    (kind : PacketKind) (pt : Bytes) : LockStep C pid ep (l.send C pid kind pt) m := by
  obtain ⟨ct, hct, henc⟩ := packetEncrypt_ideal hC l.sender pid kind.prefixByte pt
  simp only [Link.send, henc]
  refine ⟨h.keys, h.closed, ?_, ?_, ?_, ?_, h.window, h.arrived, h.accepted, h.connected⟩
  · show (l.sender.txNonceCounter + 1) % u64Size = _
    rw [h.counter, List.length_append, List.length_singleton, Nat.mod_add_mod]
  · intro i p hi
    rcases getElem?_concat hi with hold | ⟨rfl, rfl⟩
    · exact h.nonce i p hold
    · exact h.counter
  · intro i p hi
    rcases getElem?_concat hi with hold | ⟨-, rfl⟩
    · exact h.kind i p hold
    · exact kind.prefixByte_ne
  · intro i p hi
    rcases getElem?_concat hi with hold | ⟨-, rfl⟩
    · exact h.genuine i p hold
    · exact ⟨pt, hct⟩

/-- A packet that had already arrived changes nothing but the record of arrivals. -/
theorem arrive_old_lockStep (hC : C.Ideal) {l : Link Key Ct} {m i : Nat} {p : SentPacket Ct}
    (h : LockStep C pid ep l m) (hp : l.sent[i]? = some p) (hi : i < m) (now : Time) :
    LockStep C pid ep (l.arrive C pid ep i now) m := by
  obtain ⟨pt, hopen⟩ := h.open_eq hC hp now
  have hle := h.le
  have hne : ¬ (i % u64Size = m ∧ Unwrapped m) := by
    rintro ⟨heq, -⟩
    rw [Nat.mod_eq_of_lt (by unfold u64Size; omega)] at heq
    omega
  rw [if_neg hne] at hopen
  simp only [Link.arrive, hp, hopen]
  refine ⟨h.keys, h.closed, h.counter, h.nonce, h.kind, h.genuine, h.window, ?_, h.accepted,
    h.connected⟩
  intro j
  rw [List.mem_cons, h.arrived]
  omega

theorem arrive_next_lockStep (hC : C.Ideal) {l : Link Key Ct} {m : Nat} {p : SentPacket Ct}
    (h : LockStep C pid ep l m) (hp : l.sent[m]? = some p) (hm : Unwrapped m) (now : Time) :
    (ep.openPacket C pid now l.receiver p.packet).1.isSome = true ∧
      LockStep C pid ep (l.arrive C pid ep m now) (m + 1) := by
  obtain ⟨pt, hopen⟩ := h.open_eq hC hp now
  have hcond : m % u64Size = m ∧ Unwrapped m := by
    refine ⟨Nat.mod_eq_of_lt ?_, hm⟩
    unfold Unwrapped at hm
    omega
  rw [if_pos hcond] at hopen
  refine ⟨by rw [hopen]; rfl, ?_⟩
  simp only [Link.arrive, hp, hopen]
  refine ⟨h.keys, h.closed, h.counter, h.nonce, h.kind, h.genuine, h.window.advance hm, ?_, ?_,
    fun _ => Nat.succ_pos m⟩
  · intro j
    rw [List.mem_cons, h.arrived]
    omega
  · intro j
    rw [List.mem_cons, h.accepted]
    omega

theorem step_of_inOrder (hC : C.Ideal) {l : Link Key Ct} {m : Nat} (h : LockStep C pid ep l m)
    {ev : LinkEvent} (hord : ArrivesInOrder l ev) :
    Tolerates C pid ep l ev ∧ ∃ m', LockStep C pid ep (linkStep C pid ep l ev) m' := by
  cases ev with
  | send kind pt => exact ⟨trivial, m, send_lockStep hC h kind pt⟩
  | arrive i now =>
    cases hp : l.sent[i]? with
    | none =>
      refine ⟨?_, m, ?_⟩
      · intro p hp'
        rw [hp] at hp'
        simp at hp'
      · simp only [linkStep, Link.arrive, hp]
        exact h
    | some p =>
      have hlen : i < l.sent.length := (List.getElem?_eq_some_iff.mp hp).1
      obtain ⟨hbefore, hbound⟩ := hord hlen
      rcases Nat.lt_or_ge i m with hlt | hge
      · refine ⟨?_, m, arrive_old_lockStep hC h hp hlt now⟩
        intro q _ hnew
        exact absurd ((h.arrived i).mpr hlt) hnew
      · -- Every earlier packet has arrived, so this is the one due next.
        have him : i = m := by
          rcases Nat.eq_or_lt_of_le hge with heq | hgt
          · exact heq.symm
          · have := (h.arrived m).mp (hbefore m hgt)
            omega
        subst him
        have hunw : Unwrapped i := by
          show i + 256 < 2 ^ 64
          omega
        obtain ⟨hopen, hlock⟩ := arrive_next_lockStep hC h hp hunw now
        refine ⟨?_, i + 1, hlock⟩
        intro q hq _ _
        rw [hp, Option.some.injEq] at hq
        rw [← hq]
        exact hopen

/-- A tolerated event arrived in order, as long as the nonces have not wrapped. -/
theorem inOrder_of_tolerates (hC : C.Ideal) {l : Link Key Ct} {m : Nat}
    (h : LockStep C pid ep l m) (hlen : l.sent.length ≤ 2 ^ 64) {ev : LinkEvent}
    (htol : Tolerates C pid ep l ev) : ArrivesInOrder l ev := by
  cases ev with
  | send kind pt => exact trivial
  | arrive i now =>
    intro hi
    obtain ⟨p, hp⟩ : ∃ p, l.sent[i]? = some p := ⟨_, List.getElem?_eq_getElem hi⟩
    have hmod : i % u64Size = i := Nat.mod_eq_of_lt (by unfold u64Size; omega)
    have hle := h.le
    rcases Nat.lt_or_ge i m with hlt | hge
    · exact ⟨fun k hk => (h.arrived k).mpr (by omega), by omega⟩
    · have hnew : i ∉ l.arrived := fun hc => by
        have := (h.arrived i).mp hc
        omega
      have hnear : ∀ j ∈ l.accepted, ∀ q, l.sent[j]? = some q →
          q.nonce < p.nonce + windowSize := by
        intro j hj q hq
        have hjm := (h.accepted j).mp hj
        rw [h.nonce j q hq, h.nonce i p hp, hmod, Nat.mod_eq_of_lt (by unfold u64Size; omega)]
        omega
      have hopened := htol p hp hnew hnear
      obtain ⟨pt, hopen⟩ := h.open_eq hC hp now
      by_cases hcond : i % u64Size = m ∧ Unwrapped m
      · obtain ⟨heq, hunw⟩ := hcond
        rw [hmod] at heq
        subst heq
        refine ⟨fun k hk => (h.arrived k).mpr hk, ?_⟩
        have : i + 256 < 2 ^ 64 := hunw
        omega
      · rw [hopen, if_neg hcond] at hopened
        exact absurd hopened (by simp)

theorem sent_length_le (hC : C.Ideal) (pid : Nat) (ep : Endpoint) (l : Link Key Ct)
    (ev : LinkEvent) :
    (linkStep C pid ep l ev).sent.length ≤ l.sent.length + 1 := by
  cases ev with
  | send kind pt =>
    obtain ⟨ct, -, henc⟩ := packetEncrypt_ideal hC l.sender pid kind.prefixByte pt
    simp [linkStep, Link.send, henc]
  | arrive i now =>
    simp only [linkStep, Link.arrive]
    split
    · omega
    · split <;> simp

theorem along_inOrder_of_tolerates (hC : C.Ideal) :
    ∀ (es : List LinkEvent) {l : Link Key Ct} {m : Nat}, LockStep C pid ep l m →
      l.sent.length + es.length ≤ 2 ^ 64 →
      Along (linkStep C pid ep) (Tolerates C pid ep) l es →
      Along (linkStep C pid ep) ArrivesInOrder l es := by
  intro es
  induction es with
  | nil => intro l m _ _ _; exact trivial
  | cons ev es ih =>
    intro l m h hlen hal
    simp only [List.length_cons] at hlen
    have hord := inOrder_of_tolerates hC h (by omega) hal.1
    obtain ⟨-, m', h'⟩ := step_of_inOrder hC h hord
    have hgrow := sent_length_le hC pid ep l ev
    exact ⟨hord, ih h' (by omega) hal.2⟩

/-! ### The established link -/

/-- The link to the client: the keepalive, sent with nonce zero, has been opened. -/
theorem established_client (hC : C.Ideal) (pid : Nat) (c2s s2c : Key) (accept : Bytes) :
    ∃ ct, Genuine C pid s2c 0 ⟨prefixKeepalive, ct⟩ accept ∧
      Link.established C pid c2s s2c accept .client =
        { sender := (serverKeySetup C c2s s2c).counted accept.length
          receiver := (clientKeySetup C c2s s2c).received 0
          sent := [⟨0, ⟨prefixKeepalive, ct⟩⟩]
          arrived := [0]
          accepted := [0] } := by
  obtain ⟨ct, hct, henc⟩ :=
    packetEncrypt_ideal hC (serverKeySetup C c2s s2c) pid prefixKeepalive accept
  refine ⟨ct, hct, ?_⟩
  have hdec : packetDecrypt C (clientKeySetup C c2s s2c) pid prefixKeepalive 0 ct
      = (some accept, (clientKeySetup C c2s s2c).received 0) := by
    have hgen : Genuine C pid (clientKeySetup C c2s s2c).rxKey 0 ⟨prefixKeepalive, ct⟩
        accept := hct
    have := packetDecrypt_genuine hC (m := 0) upTo_reset (by decide) hgen
    rwa [if_pos ⟨rfl, by decide⟩] at this
  have hctr : (serverKeySetup C c2s s2c).txNonceCounter = 0 := rfl
  simp only [Link.established, Link.send, PacketKind.prefixByte, henc, List.nil_append,
    clientOpenAccept, hdec, hctr]

theorem established_lockStep (hC : C.Ideal) (pid : Nat) (c2s s2c : Key) (accept : Bytes)
    (ep : Endpoint) :
    ∃ m, LockStep C pid ep (Link.established C pid c2s s2c accept ep) m ∧
      (Link.established C pid c2s s2c accept ep).sent.length ≤ 1 := by
  cases ep with
  | server =>
    obtain ⟨ct, -, henc⟩ :=
      packetEncrypt_ideal hC (serverKeySetup C c2s s2c) pid prefixKeepalive accept
    have hrecv : (Link.established C pid c2s s2c accept .server).receiver
        = (serverKeySetup C c2s s2c).counted accept.length := by
      simp only [Link.established, sealKeepalive, henc]
    refine ⟨0, ⟨?_, ?_, rfl, ?_, ?_, ?_, ?_, ?_, ?_, ?_⟩, Nat.zero_le _⟩
    · rw [hrecv]; rfl
    · rw [hrecv]; exact Int.le_refl _
    · intro i p hp; simp [Link.established] at hp
    · intro i p hp; simp [Link.established] at hp
    · intro i p hp; simp [Link.established] at hp
    · rw [hrecv]; exact upTo_reset
    · intro i; simp [Link.established]
    · intro i; simp [Link.established]
    · intro hc; cases hc
  | client =>
    obtain ⟨ct, hgen, hlink⟩ := established_client hC pid c2s s2c accept
    rw [hlink]
    have honly : ∀ (i : Nat) (p : SentPacket Ct),
        [(⟨0, ⟨prefixKeepalive, ct⟩⟩ : SentPacket Ct)][i]? = some p →
        i = 0 ∧ p = ⟨0, ⟨prefixKeepalive, ct⟩⟩ := by
      intro i p hp
      rw [← List.nil_append [_]] at hp
      rcases getElem?_concat hp with hnil | hone
      · simp at hnil
      · exact hone
    refine ⟨1, ⟨rfl, Int.le_refl _, rfl, ?_, ?_, ?_, ?_, ?_, ?_, fun _ => Nat.one_pos⟩,
      Nat.le_refl _⟩
    · intro i p hp
      obtain ⟨rfl, rfl⟩ := honly i p hp
      rfl
    · intro i p hp
      obtain ⟨-, rfl⟩ := honly i p hp
      exact PacketKind.prefixByte_ne .keepalive
    · intro i p hp
      obtain ⟨-, rfl⟩ := honly i p hp
      exact ⟨accept, hgen⟩
    · exact upTo_reset.advance (by decide)
    · intro i; simp
    · intro i; simp

/--
**First copies in order, or packets are lost.**  On an established link, with either
endpoint receiving, a schedule whose first copies arrive in order and below the wrap
of the nonce loses no packet; and, of the schedules too short for the nonce counter
to wrap, only such a schedule loses none.
-/
theorem link_tolerates_iff_inOrder (C : Primitives Key Ct) (hC : C.Ideal) (pid : Nat)
    (ep : Endpoint) (c2s s2c : Key) (accept : Bytes) (es : List LinkEvent) :
    (Along (linkStep C pid ep) ArrivesInOrder (Link.established C pid c2s s2c accept ep) es →
      Along (linkStep C pid ep) (Tolerates C pid ep)
        (Link.established C pid c2s s2c accept ep) es) ∧
    (es.length < 2 ^ 64 →
      Along (linkStep C pid ep) (Tolerates C pid ep)
        (Link.established C pid c2s s2c accept ep) es →
      Along (linkStep C pid ep) ArrivesInOrder
        (Link.established C pid c2s s2c accept ep) es) := by
  obtain ⟨m, hlock, hlen⟩ := established_lockStep hC pid c2s s2c accept ep
  refine ⟨along_of_invariant (fun l => ∃ m, LockStep C pid ep l m) ?_ ⟨m, hlock⟩,
    fun hes => along_inOrder_of_tolerates hC es hlock (by omega)⟩
  intro l ev hinv hord
  obtain ⟨k, hk⟩ := hinv
  exact step_of_inOrder hC hk hord

/-- A key-numbering cipher, for runs on concrete packets. -/
def toyCipher : Primitives Nat (Sealed Nat) :=
  symbolic (fun k _ => k + 100) 0

theorem toyCipher_ideal : toyCipher.Ideal :=
  symbolic_ideal _ _

/-- A connection, to be set up with channels. -/
def toyConnection : Connection Nat := { Connection.idle toyCipher with active := true }

/-- Duplicates do no harm: the two packets are opened, in order. -/
theorem link_tolerates_duplicates :
    Along (linkStep toyCipher 7 .server) (Tolerates toyCipher 7 .server)
      (Link.established toyCipher 7 1 2 [0] .server)
      [.send .data [1], .send .keepalive [2], .arrive 0 0, .arrive 0 0, .arrive 1 0] :=
  (link_tolerates_iff_inOrder toyCipher toyCipher_ideal 7 .server 1 2 [0] _).1 (by decide)

/-- One lost packet, and the next one is dropped: the second data packet arrives
alone, at the server and at the client, and neither opens it. -/
theorem link_drops_after_loss :
    (¬ Along (linkStep toyCipher 7 .server) (Tolerates toyCipher 7 .server)
      (Link.established toyCipher 7 1 2 [0] .server)
      [.send .data [1], .send .data [2], .arrive 1 0]) ∧
    ¬ Along (linkStep toyCipher 7 .client) (Tolerates toyCipher 7 .client)
      (Link.established toyCipher 7 1 2 [0] .client)
      [.send .data [1], .send .data [2], .arrive 2 0] := by
  constructor
  · rintro ⟨-, -, h, -⟩
    refine absurd (h _ rfl (by decide) ?_) (by decide)
    intro j hj
    exact absurd hj List.not_mem_nil
  · rintro ⟨-, -, h, -⟩
    refine absurd (h _ rfl (by decide) ?_) (by decide)
    intro j hj q hq
    have hj0 : j = 0 := List.mem_singleton.mp hj
    subst hj0
    rw [← Option.some.inj hq]
    decide

end Netudp
