/-
What a flood keeps out.

The monitor has a rule for each of its two upper levels: at `Critical` no new connection,
and from `High` on no packet that is not of an established peer.  The dispatch asks only
for the first.  A packet that is no request and comes from no peer's address finds no slot
at any level, since the address map leads to active slots only; so all that `High` would
have to keep out and does not are the connection requests.
-/
import Netudp.Proofs.Ddos
import Netudp.Proofs.NonceReuse
import Netudp.Proofs.ServerTables
import Netudp.Server.Flood

namespace Netudp

open Lib

variable {Key Ct : Type} (C : Primitives Key Ct) (T : TokenOps Key) (cfg : ServerConfig)

/-! ### The server behind the monitor -/

theorem guardedStep_server (g : GuardedServer Key) (ev : GuardedEvent Ct) :
    (guardedStep C T cfg g ev).1.server = g.server ∨
      ∃ e, (guardedStep C T cfg g ev).1.server = (serverStep C T cfg g.server e).1 := by
  cases ev with
  | refused => exact Or.inl rfl
  | server ev =>
    cases ev with
    | dispatch from_ packet =>
      cases packet with
      | request packet =>
        simp only [guardedStep, GuardedServer.dispatchPacket]
        by_cases hreq : Server.isRequest packet = true
        · by_cases hopen : g.ddos.shouldProcessNewConnection = true
          · refine Or.inr ⟨.dispatch from_ (.request packet), ?_⟩
            simp only [hreq, hopen, serverStep, Server.dispatchPacket, if_pos]
          · simp [hreq, hopen]
        · simp [hreq, GuardedServer.badPacket]
      | data wireSlot packet =>
        refine Or.inr ⟨.dispatch from_ (.data wireSlot packet), ?_⟩
        simp only [guardedStep, GuardedServer.dispatchPacket, serverStep,
          Server.dispatchPacket]
        by_cases hkind : Server.isDataPrefix packet.prefixByte = true
        · rw [if_pos hkind, if_pos hkind]
          cases g.server.findSlot cfg from_ wireSlot (C.ctLen packet.ct) with
          | none => rfl
          | some slot =>
            simp only []
            split
            · rfl
            · rfl
        · rw [if_neg hkind, if_neg hkind]
          rfl
    | beginUpdate time => exact Or.inr ⟨.beginUpdate time, rfl⟩
    | finishUpdate => exact Or.inr ⟨.finishUpdate, rfl⟩
    | send slot channel data flags => exact Or.inr ⟨.send slot channel data flags, rfl⟩
    | sendState slot channel entityId data =>
      exact Or.inr ⟨.sendState slot channel entityId data, rfl⟩
    | flush slot => exact Or.inr ⟨.flush slot, rfl⟩

/-- The server and the monitor after the events, from the start of the server and a
monitor in any state. -/
def GuardedServer.after (ddos : DdosMonitor) (time : Time) (es : List (GuardedEvent Ct)) :
    GuardedServer Key :=
  run (fun g ev => (guardedStep C T cfg g ev).1) ⟨.start C cfg time, ddos⟩ es

theorem tables_guarded (ddos : DdosMonitor) (time : Time) (es : List (GuardedEvent Ct)) :
    Tables cfg (GuardedServer.after C T cfg ddos time es).server := by
  refine run_invariant' (fun g : GuardedServer Key => Tables cfg g.server) ?_ es
    (tables_start C cfg time)
  intro g ev h
  rcases guardedStep_server C T cfg g ev with hsame | ⟨e, hstep⟩
  · show Tables cfg (guardedStep C T cfg g ev).1.server
    rw [hsame]
    exact h
  · show Tables cfg (guardedStep C T cfg g ev).1.server
    rw [hstep]
    exact tables_step C T cfg h e

/-! ### Strangers -/

/-- The address belongs to no active connection. -/
def Server.Stranger (s : Server Key) (from_ : Address) : Prop :=
  ∀ i, (s.connections i).active = true → addressEqual (s.connections i).address from_ = false

/-- The packet is what the dispatch takes for a connection request. -/
def Incoming.isConnectionRequest : Incoming Ct → Bool
  | .request packet => Server.isRequest packet
  | .data _ _ => false

variable {cfg} in
/-- No packet leads a stranger to a slot. -/
theorem Tables.findSlot_stranger {s : Server Key} (h : Tables cfg s) {from_ : Address}
    (hstranger : s.Stranger from_) (wireSlot ctLen : Nat) :
    s.findSlot cfg from_ wireSlot ctLen = none := by
  cases hfind : s.findSlot cfg from_ wireSlot ctLen with
  | none => rfl
  | some slot =>
    obtain ⟨hactive, haddress⟩ := h.findSlot_sound hfind
    rw [hstranger slot hactive] at haddress
    exact absurd haddress Bool.false_ne_true

/-- **From `High` on only established peers are served**, connection requests at `High`
apart: a packet from an address of no active connection leaves the server as it is. -/
theorem flood_serves_established (ddos : DdosMonitor) (time : Time)
    (es : List (GuardedEvent Ct)) (from_ : Address) (packet : Incoming Ct) :
    let g := GuardedServer.after C T cfg ddos time es
    g.ddos.severity = .high ∨ g.ddos.severity = .critical → g.server.Stranger from_ →
    (g.ddos.severity = .high → packet.isConnectionRequest = false) →
    (g.dispatchPacket C T cfg from_ packet).1.server = g.server ∧
      (g.dispatchPacket C T cfg from_ packet).2 = [] := by
  intro g hsevere hstranger hrequest
  have htables : Tables cfg g.server := tables_guarded C T cfg ddos time es
  cases packet with
  | request packet =>
    simp only [GuardedServer.dispatchPacket]
    by_cases hreq : Server.isRequest packet = true
    · have hcritical : g.ddos.severity = .critical := by
        rcases hsevere with hhigh | hcritical
        · have hno : Server.isRequest packet = false := hrequest hhigh
          rw [hno] at hreq
          exact absurd hreq Bool.false_ne_true
        · exact hcritical
      have hclosed : g.ddos.shouldProcessNewConnection = false := by
        rw [DdosMonitor.shouldProcessNewConnection, hcritical]
        rfl
      simp [hreq, hclosed]
    · simp [hreq, GuardedServer.badPacket]
  | data wireSlot packet =>
    simp only [GuardedServer.dispatchPacket, htables.findSlot_stranger hstranger]
    split
    · exact ⟨rfl, rfl⟩
    · exact ⟨rfl, rfl⟩

/-! ### A flood -/

/-- Packets that are refused only count. -/
theorem run_refused (g : GuardedServer Key) (n : Nat) :
    run (fun g ev => (guardedStep C T cfg g ev).1) g (List.replicate n .refused) =
      { g with ddos := DdosMonitor.onBadPacket^[n] g.ddos } := by
  induction n generalizing g with
  | zero => rfl
  | succ n ih =>
    rw [List.replicate_succ, run_cons, ih]
    rfl

/-- An update in which so many packets are refused, and the next one two seconds later. -/
def floodOf (n : Nat) : List (GuardedEvent (Sealed Nat)) :=
  .server (.beginUpdate 1) :: (List.replicate n .refused ++
    [.server .finishUpdate, .server (.beginUpdate 3)])

/-- A server that nobody is connected to after a flood. -/
def flooded (n : Nat) : GuardedServer Nat :=
  GuardedServer.after toyCipher toyTokens toyServerConfig {} 0 (floodOf n)

/-- What is left of it without the flood. -/
def quietUpdates : List (ServerEvent (Sealed Nat)) :=
  [.beginUpdate 1, .finishUpdate, .beginUpdate 3]

/-- The flood is nothing to the server. -/
theorem flooded_server (n : Nat) :
    (flooded n).server = Server.after toyCipher toyTokens toyServerConfig 0 quietUpdates := by
  rw [flooded, GuardedServer.after, floodOf, run_cons, run_append, run_refused]
  rfl

theorem flooded_severity {n : Nat} (h : n < 2 ^ 31) :
    (flooded n).ddos.severity = .ofBadPackets n := by
  -- The first update makes an evaluation too, and finds nothing.
  have hfirst : DdosMonitor.update {} (1 - 0) = { cooloffTimer := 1 } := by decide +kernel
  have hcount : DdosMonitor.onBadPacket^[n] { cooloffTimer := 1 } =
      { cooloffTimer := 1, badPacketsThisWindow := n } := by
    rw [DdosMonitor.iterate_onBadPacket _ rfl, wrap32_eq (by omega) (by omega)]
  have htimer : (1 : Time) = (1 : Nat) := Nat.cast_one.symm
  have hlate : DdosMonitor.evaluates { cooloffTimer := 1, badPacketsThisWindow := n } (3 - 1)
      = true := by
    norm_num [DdosMonitor.evaluates]
  rw [flooded, GuardedServer.after, floodOf, run_cons, run_append, run_refused]
  show (DdosMonitor.update (DdosMonitor.onBadPacket^[n] (DdosMonitor.update {} (1 - 0)))
    (3 - 1)).severity = .ofBadPackets n
  rw [hfirst, hcount, DdosMonitor.update_of_evaluates hlate,
    DdosMonitor.evaluate_severity_of_none htimer rfl]

theorem flooded_stranger (n : Nat) : (flooded n).server.Stranger toyAddress := by
  have htable : Tables toyServerConfig (flooded n).server :=
    tables_guarded toyCipher toyTokens toyServerConfig {} 0 (floodOf n)
  intro i hactive
  have hmem := (htable.table.active i).mp hactive
  have hnobody : (flooded n).server.activeSlots = [] := by
    rw [flooded_server]
    decide +kernel
  rw [hnobody] at hmem
  exact absurd hmem List.not_mem_nil

/-- After 10001 bad packets a request from a stranger is dropped. -/
theorem critical_drops_request :
    (flooded 10001).ddos.severity = .critical ∧ (flooded 10001).server.Stranger toyAddress ∧
      ((flooded 10001).dispatchPacket toyCipher toyTokens toyServerConfig toyAddress
        (.request (toyRequest 0))).1.server = (flooded 10001).server := by
  have hcritical : (flooded 10001).ddos.severity = .critical := by
    rw [flooded_severity (by norm_num)]
    decide +kernel
  have hstranger := flooded_stranger 10001
  refine ⟨hcritical, hstranger, ?_⟩
  rw [flooded] at hcritical hstranger ⊢
  refine (flood_serves_established _ _ _ _ _ _ _ _ (Or.inr hcritical) hstranger ?_).1
  intro hhigh
  rw [hcritical] at hhigh
  cases hhigh

/-- After 2001 it is admitted, although the rule for `High` would have it dropped. -/
theorem high_admits_request :
    let g := flooded 2001
    g.ddos.severity = .high ∧ g.ddos.shouldProcessPacket false = false ∧
      g.server.Stranger toyAddress ∧ g.server.activeSlots = [] ∧
      (g.dispatchPacket toyCipher toyTokens toyServerConfig toyAddress
        (.request (toyRequest 0))).1.server.activeSlots = [0] := by
  intro g
  have hhigh : g.ddos.severity = .high := by
    rw [show g = flooded 2001 from rfl, flooded_severity (by norm_num)]
    decide +kernel
  have hopen : g.ddos.shouldProcessNewConnection = true := by
    rw [DdosMonitor.shouldProcessNewConnection, hhigh]
    rfl
  have hserver : g.server = Server.after toyCipher toyTokens toyServerConfig 0 quietUpdates :=
    flooded_server 2001
  refine ⟨hhigh, ?_, flooded_stranger 2001, ?_, ?_⟩
  · rw [DdosMonitor.shouldProcessPacket, hhigh]
    rfl
  · rw [hserver]
    decide +kernel
  · rw [GuardedServer.dispatchPacket, if_pos (by decide +kernel), if_pos hopen, hserver]
    decide +kernel

end Netudp
