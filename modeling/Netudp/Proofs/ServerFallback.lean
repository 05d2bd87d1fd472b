/-
The servers a client asks.

A token lists up to 32 servers, and a client that gets no answer from one is to ask the next.
What moves on is the index of the server; where a request goes is what the socket was
connected to when the token was loaded.  So every request goes to the first server, and the
two agree as long as no other server's turn has come, or the servers all have one address.
-/
import Mathlib.Tactic.Linarith
import Netudp.Proofs.Handshake

namespace Netudp

open Lib

variable {Ct : Type} {C : Primitives KeyBytes Ct} {cfg : ClientConfig}

/-! ### Runs -/

/-- The calls that ask for a connection. -/
inductive ClientCall (Ct : Type) where
  | connect (token : Vector UInt8 2048)
  | update (time : Time) (received : List (Packet Ct))

/-- Where a request went. -/
def ClientAction.destination : ClientAction Ct → Option (Option Address)
  | .request to_ _ => some to_
  | .did _ => none

/-- A client, with the requests it has made since it loaded its token: which server had its
turn, and where the request went. -/
structure RequestRun where
  client : Client
  requests : List (Nat × Option Address)

def requestStep (C : Primitives KeyBytes Ct) (cfg : ClientConfig) (r : RequestRun) :
    ClientCall Ct → RequestRun
  | .connect token => ⟨r.client.connect cfg token, []⟩
  | .update time received =>
    let updated := r.client.update C cfg time received
    ⟨updated.1, r.requests ++ (updated.2.filterMap ClientAction.destination).map
      fun to_ => (r.client.currentServerIndex, to_)⟩

/-- A client that was created at `time`. -/
def RequestRun.create (C : Primitives KeyBytes Ct) (time : Time) : RequestRun :=
  ⟨.create C time, []⟩

/-! ### One update -/

/-- Nothing was done about the request. -/
structure SameAttempt (c c' : Client) : Prop where
  addresses : c'.serverAddresses = c.serverAddresses
  number : c'.numServerAddresses = c.numServerAddresses
  index : c'.currentServerIndex = c.currentServerIndex
  peer : c'.socketPeer = c.socketPeer
  lastSend : c'.lastSendTime = c.lastSendTime
  started : c'.connectStartTime = c.connectStartTime
  timeout : c'.timeoutSeconds = c.timeoutSeconds
  sending : c'.state = .sendingRequest → c.state = .sendingRequest
  timedOut : c'.state = .requestTimedOut → c.state = .requestTimedOut

theorem SameAttempt.refl (c : Client) : SameAttempt c c :=
  ⟨rfl, rfl, rfl, rfl, rfl, rfl, rfl, id, id⟩

theorem SameAttempt.trans {c c' c'' : Client} (h : SameAttempt c c') (h' : SameAttempt c' c'') :
    SameAttempt c c'' where
  addresses := h'.addresses.trans h.addresses
  number := h'.number.trans h.number
  index := h'.index.trans h.index
  peer := h'.peer.trans h.peer
  lastSend := h'.lastSend.trans h.lastSend
  started := h'.started.trans h.started
  timeout := h'.timeout.trans h.timeout
  sending := h.sending ∘ h'.sending
  timedOut := h.timedOut ∘ h'.timedOut

theorem SameAttempt.leave {c : Client} {conn : Connection KeyBytes} {state : ClientState}
    (hsending : state ≠ .sendingRequest) (htimedOut : state ≠ .requestTimedOut) :
    SameAttempt c { c with conn := conn, state := state } :=
  ⟨rfl, rfl, rfl, rfl, rfl, rfl, rfl, (absurd · hsending), (absurd · htimedOut)⟩

theorem SameAttempt.conn {c : Client} {conn : Connection KeyBytes} :
    SameAttempt c { c with conn := conn } :=
  ⟨rfl, rfl, rfl, rfl, rfl, rfl, rfl, id, id⟩

theorem sameAttempt_receiveAccept (time : Time) (c : Client) (packet : Packet Ct) :
    SameAttempt c (c.receiveAccept C cfg time packet) := by
  unfold Client.receiveAccept
  split
  · exact .conn
  · dsimp only
    split
    · exact .conn
    · exact ⟨rfl, rfl, rfl, rfl, rfl, rfl, rfl, by simp, by simp⟩

theorem sameAttempt_receivePacket (time : Time) (c : Client) (packet : Packet Ct) :
    SameAttempt c (c.receivePacket C cfg time packet) := by
  simp only [Client.receivePacket]
  by_cases haccept : packet.prefixByte.toNat % 16 = 5 ∧ c.state = .sendingRequest
  · rw [if_pos haccept]
    exact sameAttempt_receiveAccept time c packet
  · rw [if_neg haccept]
    split
    · split
      · exact .conn
      · exact .leave (by decide) (by decide)
    · exact .refl c

theorem sameAttempt_received (time : Time) (c : Client) (received : List (Packet Ct)) :
    SameAttempt c (received.foldl (fun c packet => c.receivePacket C cfg time packet) c) := by
  induction received generalizing c with
  | nil => exact .refl c
  | cons packet received ih =>
    exact (sameAttempt_receivePacket time c packet).trans (ih _)

theorem sameAttempt_updateConnected (time dt : Time) (c : Client) :
    SameAttempt c (c.updateConnected C cfg time dt).1 := by
  simp only [Client.updateConnected]
  split
  · exact .leave (by decide) (by decide)
  · exact .conn

theorem sendRequest_client (c : Client) (time : Time) :
    (c.sendRequest time : Client × List (ClientAction Ct)).1 =
      { c with lastSendTime := if 1 / 10 < time - c.lastSendTime then time
        else c.lastSendTime } := by
  unfold Client.sendRequest
  split
  · rfl
  · rfl

/-- What an update does about the request: one is made when it is due, and then the server's
time may be up. -/
def Client.requestPhase (Ct : Type) (time : Time) (c : Client) : Client :=
  if c.state = .sendingRequest then
    (c.sendRequest time : Client × List (ClientAction Ct)).1.requestTimeout time
  else c

theorem sameAttempt_update (c : Client) (time : Time) (received : List (Packet Ct)) :
    SameAttempt ({ c with currentTime := time }.requestPhase Ct time)
      (c.update C cfg time received).1 := by
  have hphase : (if c.state = .sendingRequest then
        (({ c with currentTime := time }.sendRequest time : Client × List (ClientAction Ct)).1
            |>.requestTimeout time,
          ({ c with currentTime := time }.sendRequest time : Client × List (ClientAction Ct)).2)
      else ({ c with currentTime := time }, [])).1 =
        { c with currentTime := time }.requestPhase Ct time := by
    unfold Client.requestPhase
    split
    · rfl
    · rfl
  simp only [Client.update]
  rw [hphase]
  refine SameAttempt.trans ?_ (sameAttempt_received time _ _)
  split
  · exact sameAttempt_updateConnected time _ _
  · exact .refl _

/-- An update makes a request when one is due, to what the socket is connected to. -/
theorem update_destinations (c : Client) (time : Time) (received : List (Packet Ct)) :
    (c.update C cfg time received).2.filterMap ClientAction.destination =
      if c.state = .sendingRequest ∧ 1 / 10 < time - c.lastSendTime then [c.socketPeer]
      else [] := by
  have hconnected : ∀ (c : Client) (dt : Time),
      (if c.state = .connected then c.updateConnected C cfg time dt
        else (c, [])).2.filterMap ClientAction.destination = [] := by
    intro c dt
    split
    · simp [Client.updateConnected, List.filterMap_map, Function.comp_def,
        ClientAction.destination]
    · rfl
  simp only [Client.update, List.filterMap_append, hconnected, List.append_nil]
  split
  · rename_i hstate
    simp only [Client.sendRequest, hstate, true_and]
    split
    · rfl
    · rfl
  · rename_i hstate
    simp [hstate]

/-! ### The invariant -/

theorem length_readAddresses (num : Nat) (buf : Bytes) :
    (Client.readAddresses num buf).1.length = num := by
  induction num generalizing buf with
  | zero => rfl
  | succ num ih => simp [Client.readAddresses, ih]

/-- The servers all have the first one's address. -/
def OneAddress (addresses : List Address) : Prop :=
  ∀ a ∈ addresses, addresses[0]? = some a
deriving Decidable

theorem OneAddress.getElem? {addresses : List Address} (h : OneAddress addresses) {i : Nat}
    (hi : i < addresses.length) : addresses[i]? = addresses[0]? := by
  rw [List.getElem?_eq_getElem hi]
  exact (h _ (List.getElem_mem hi)).symm

theorem oneAddress_of_length {addresses : List Address} (h : addresses.length ≤ 1) :
    OneAddress addresses := by
  intro a ha
  match addresses, h, ha with
  | [b], _, ha => rw [List.mem_singleton.mp ha, List.getElem?_cons_zero]

/-- The client's attempt to connect, and the requests of it. -/
structure Requesting (c : Client) (requests : List (Nat × Option Address)) : Prop where
  sent : ∀ q ∈ requests, q.1 < c.serverAddresses.length ∧ q.2 = c.serverAddresses[q.1]?
  number : c.state = .sendingRequest → c.numServerAddresses = c.serverAddresses.length
  index : c.state = .sendingRequest → c.currentServerIndex < c.serverAddresses.length
  peer : c.state = .sendingRequest → c.socketPeer = c.serverAddresses[0]?
  /-- Before the first request it is the first server's turn, whose time is not up before a
  request is due. -/
  first : c.state = .sendingRequest → requests = [] →
    c.lastSendTime = 0 ∧ 1 / 10 ≤ c.connectStartTime + c.timeoutSeconds
  timedOut : c.state = .requestTimedOut →
    ∀ a ∈ c.serverAddresses, ∃ q ∈ requests, q.2 = some a

namespace Requesting

variable {c c' : Client} {requests : List (Nat × Option Address)} {time : Time}

theorem keep (h : Requesting c requests) (hsame : SameAttempt c c') : Requesting c' requests := by
  obtain ⟨haddresses, hnumber, hindex, hpeer, hlast, hstarted, htimeout, hsending, htimedOut⟩ :=
    hsame
  constructor
  · rw [haddresses]
    exact h.sent
  · intro hstate
    rw [hnumber, haddresses]
    exact h.number (hsending hstate)
  · intro hstate
    rw [hindex, haddresses]
    exact h.index (hsending hstate)
  · intro hstate
    rw [hpeer, haddresses]
    exact h.peer (hsending hstate)
  · intro hstate hnone
    rw [hlast, hstarted, htimeout]
    exact h.first (hsending hstate) hnone
  · intro hstate
    rw [haddresses]
    exact h.timedOut (htimedOut hstate)

/-- A client that makes no requests and has not made any. -/
theorem elsewhere (hsending : c.state ≠ .sendingRequest) (htimedOut : c.state ≠ .requestTimedOut) :
    Requesting c [] where
  sent := List.forall_mem_nil _
  number hstate := absurd hstate hsending
  index hstate := absurd hstate hsending
  peer hstate := absurd hstate hsending
  first hstate := absurd hstate hsending
  timedOut hstate := absurd hstate htimedOut

theorem connect (c : Client) (token : Vector UInt8 2048)
    (hclock : 1 / 10 ≤ c.currentTime + (c.connect cfg token).timeoutSeconds) :
    Requesting (c.connect cfg token) [] := by
  unfold Client.connect at hclock ⊢
  dsimp only at hclock ⊢
  split
  · exact elsewhere (by simp) (by simp)
  · rename_i hnumber
    rw [if_neg hnumber] at hclock
    exact {
      sent := List.forall_mem_nil _
      number := fun _ => (length_readAddresses _ _).symm
      index := fun _ => by
        rw [length_readAddresses]
        exact Nat.pos_of_ne_zero fun hzero => hnumber (.inl hzero)
      peer := fun _ => rfl
      first := fun _ _ => ⟨rfl, hclock⟩
      timedOut := by simp }

theorem sendRequest (h : Requesting c requests) (hstate : c.state = .sendingRequest)
    (hserver : c.currentServerIndex ≠ 0 → OneAddress c.serverAddresses) :
    Requesting (c.sendRequest time : Client × List (ClientAction Ct)).1
      (requests ++ (if 1 / 10 < time - c.lastSendTime then [c.socketPeer] else []).map
        fun to_ => (c.currentServerIndex, to_)) := by
  unfold Client.sendRequest
  split
  · have hindex := h.index hstate
    have hto : c.socketPeer = c.serverAddresses[c.currentServerIndex]? := by
      by_cases hfirst : c.currentServerIndex = 0
      · rw [hfirst, h.peer hstate]
      · rw [(hserver hfirst).getElem? hindex, h.peer hstate]
    refine { h with sent := ?_, first := by simp, timedOut := fun ht => ?_ }
    · intro q hq
      obtain hq | hq := List.mem_append.mp hq
      · exact h.sent q hq
      · obtain rfl := List.mem_singleton.mp hq
        exact ⟨hindex, hto⟩
    · exact absurd (hstate.symm.trans ht) (by decide)
  · simpa using h

theorem requestTimeout (h : Requesting c requests) (hstate : c.state = .sendingRequest)
    (hserver : c.currentServerIndex ≠ 0 → OneAddress c.serverAddresses)
    (hdue : requests = [] → time ≤ 1 / 10) : Requesting (c.requestTimeout time) requests := by
  have hnumber := h.number hstate
  unfold Client.requestTimeout
  dsimp only
  split
  · rename_i hup
    have hmade : requests ≠ [] := by
      intro hnone
      have hstart := (h.first hstate hnone).2
      have htime := hdue hnone
      linarith
    split
    · rename_i hlast
      rw [hnumber] at hlast
      -- This was the last server: the only one, or one of several with the same address.
      have hone : OneAddress c.serverAddresses := by
        by_cases hfirst : c.currentServerIndex = 0
        · exact oneAddress_of_length (by omega)
        · exact hserver hfirst
      obtain ⟨q, hq⟩ := List.exists_mem_of_ne_nil requests hmade
      refine ⟨h.sent, by simp, by simp, by simp, by simp, ?_⟩
      intro _ a ha
      obtain ⟨hindex, hto⟩ := h.sent q hq
      exact ⟨q, hq, by rw [hto, hone.getElem? hindex, hone a ha]⟩
    · rename_i hmore
      rw [hnumber] at hmore
      exact { h with
        index := fun _ => Nat.lt_of_not_le hmore
        first := fun _ hnone => absurd hnone hmade }
  · exact h

theorem requestPhase (h : Requesting c requests)
    (hserver : c.state = .sendingRequest → c.currentServerIndex ≠ 0 →
      OneAddress c.serverAddresses) :
    Requesting (c.requestPhase Ct time)
      (requests ++ (if c.state = .sendingRequest ∧ 1 / 10 < time - c.lastSendTime
        then [c.socketPeer] else []).map fun to_ => (c.currentServerIndex, to_)) := by
  unfold Client.requestPhase
  by_cases hstate : c.state = .sendingRequest
  · rw [if_pos hstate]
    simp only [and_iff_right hstate]
    have hsent : Requesting (c.sendRequest time : Client × List (ClientAction Ct)).1 _ :=
      h.sendRequest hstate (hserver hstate)
    rw [sendRequest_client] at hsent ⊢
    refine hsent.requestTimeout hstate (hserver hstate) ?_
    -- With none made so far, none is due yet.
    intro hnone
    obtain ⟨hbefore, hnow⟩ := List.append_eq_nil_iff.mp hnone
    have hlast := (h.first hstate hbefore).1
    by_contra hlate
    rw [if_pos (by rw [hlast]; linarith)] at hnow
    simp at hnow
  · rw [if_neg hstate, if_neg (fun hdue => hstate hdue.1)]
    simpa using h

end Requesting

/-- Once the first server's time is up, all servers have its address. -/
def OneServerAsked (r : RequestRun) : ClientCall Ct → Prop
  | .connect _ => True
  | .update _ _ => r.client.state = .sendingRequest → r.client.currentServerIndex ≠ 0 →
      OneAddress r.client.serverAddresses

instance (r : RequestRun) (call : ClientCall Ct) : Decidable (OneServerAsked r call) := by
  cases call <;> dsimp only [OneServerAsked] <;> infer_instance

/-- A token is loaded so late, or gives a server so long, that a request is due within the
first server's time. -/
def RequestDue (cfg : ClientConfig) (r : RequestRun) : ClientCall Ct → Prop
  | .connect token => 1 / 10 ≤ r.client.currentTime + (r.client.connect cfg token).timeoutSeconds
  | .update _ _ => True

instance (r : RequestRun) (call : ClientCall Ct) : Decidable (RequestDue cfg r call) := by
  cases call <;> dsimp only [RequestDue] <;> infer_instance

theorem requesting_step (r : RequestRun) (call : ClientCall Ct)
    (h : Requesting r.client r.requests) (hserver : OneServerAsked r call)
    (hclock : RequestDue cfg r call) :
    Requesting (requestStep C cfg r call).client (requestStep C cfg r call).requests := by
  obtain ⟨c, requests⟩ := r
  cases call with
  | connect token => exact .connect c token hclock
  | update time received =>
    simp only [requestStep, update_destinations]
    refine Requesting.keep ?_ (sameAttempt_update c time received)
    have hnow : Requesting { c with currentTime := time } requests :=
      h.keep ⟨rfl, rfl, rfl, rfl, rfl, rfl, rfl, id, id⟩
    exact hnow.requestPhase hserver

/-- **Every request goes to the server whose turn it is, and each server is asked before the
attempt is given up.**  As long as no other server's turn comes, unless the servers all have one
address, and a request is due within the first server's time. -/
theorem each_server_is_asked (C : Primitives KeyBytes Ct) (cfg : ClientConfig) (time : Time)
    (calls : List (ClientCall Ct))
    (hserver : Along (requestStep C cfg) OneServerAsked (.create C time) calls)
    (hclock : Along (requestStep C cfg) (RequestDue cfg) (.create C time) calls) :
    let r := run (requestStep C cfg) (.create C time) calls
    (∀ q ∈ r.requests, q.1 < r.client.serverAddresses.length ∧
        q.2 = r.client.serverAddresses[q.1]?) ∧
      (r.client.state = .requestTimedOut →
        ∀ a ∈ r.client.serverAddresses, ∃ q ∈ r.requests, q.2 = some a) := by
  have hcreated : Requesting (Client.create C time) [] :=
    .elsewhere (by simp [Client.create]) (by simp [Client.create])
  have h := run_invariant (fun r => Requesting r.client r.requests)
    (fun r call h hcall => requesting_step r call h hcall.1 hcall.2) hcreated
    (along_and.mpr ⟨hserver, hclock⟩)
  exact ⟨h.sent, h.timedOut⟩

/-- The toy token with its first server listed twice. -/
def twiceListed : Vector UInt8 2048 :=
  let server := ['1', '0', '.', '0', '.', '0', '.', '1', ':', '4', '0', '0', '0'].map Char.toUInt8
  (generateConnectToken toyXChaCha { toyArgs with serverAddresses := [server, server] }
    toyDraw).toOption.getD (.replicate 2048 0)

/-- Twelve seconds without an answer, twice. -/
def unanswered (token : Vector UInt8 2048) : List (ClientCall (Sealed KeyBytes)) :=
  [.connect token, .update 1 [], .update 12 [], .update 13 [], .update 24 []]

/-- A server that is listed twice is asked twice. -/
theorem twice_listed_is_asked :
    let r := run (requestStep toyKeyCipher ⟨7, [{}]⟩) (.create toyKeyCipher 0)
      (unanswered twiceListed)
    r.client.state = .requestTimedOut ∧
      ∀ a ∈ r.client.serverAddresses, ∃ q ∈ r.requests, q.2 = some a := by
  have hgiven : (run (requestStep toyKeyCipher ⟨7, [{}]⟩) (.create toyKeyCipher 0)
      (unanswered twiceListed)).client.state = .requestTimedOut := by
    decide +kernel
  refine ⟨hgiven, (each_server_is_asked toyKeyCipher ⟨7, [{}]⟩ 0 (unanswered twiceListed)
    ?_ ?_).2 hgiven⟩
  · decide +kernel
  · decide +kernel

/-- The toy token lists two servers, and the client gives up without having asked the second:
the requests of its turn have gone to the first. -/
theorem second_server_is_never_asked :
    let r := run (requestStep toyKeyCipher ⟨7, [{}]⟩) (.create toyKeyCipher 0)
      (unanswered toyConnectToken)
    r.client.state = .requestTimedOut ∧
      r.client.serverAddresses = [ipv4Address [10, 0, 0, 1] 4000,
        ipv6Address [0, 0, 0, 0, 0, 0, 0, 1] 4000] ∧
      r.requests = [(0, some (ipv4Address [10, 0, 0, 1] 4000)),
        (0, some (ipv4Address [10, 0, 0, 1] 4000)),
        (1, some (ipv4Address [10, 0, 0, 1] 4000)),
        (1, some (ipv4Address [10, 0, 0, 1] 4000))] := by
  decide +kernel

end Netudp
