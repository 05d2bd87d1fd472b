/-
No nonce is used twice under one key, over whole runs of the server.

With the accounts in order, a nonce is reused only if a key is installed twice.  Derived
keys are new by assumption.  A token's key is installed each time the token is accepted,
and the server does accept a token again: from the address it first came from, once the
client it connected is gone.  The new connection starts counting at zero under the old
key, so `nonce_never_reused` holds for runs in which no token is accepted again, and
`nonce_reused_on_reconnect` is a short run in which one is.
-/
import Netudp.Proofs.Accounts
import Netudp.Proofs.Link

namespace Netudp

open Lib

variable {Key Ct : Type}

/-! ### Where keys come from -/

/-- The tokens accepted, each with the transmit key it carries. -/
def acceptedTokens (log : List (ServerAction Key Ct)) : List (Bytes × Key) :=
  log.filterMap fun
    | .accepted _ request token => some (Server.requestToken request, token.serverToClientKey)
    | _ => none

/-- The transmit keys `derive_key` returned. -/
def derivedKeys (log : List (ServerAction Key Ct)) : List Key :=
  log.filterMap fun
    | .did _ (.rekeyed key) => some key
    | _ => none

@[simp] theorem acceptedTokens_append (as bs : List (ServerAction Key Ct)) :
    acceptedTokens (as ++ bs) = acceptedTokens as ++ acceptedTokens bs :=
  List.filterMap_append

@[simp] theorem derivedKeys_append (as bs : List (ServerAction Key Ct)) :
    derivedKeys (as ++ bs) = derivedKeys as ++ derivedKeys bs :=
  List.filterMap_append

/-! ### Runs -/

/-- The server and everything it has done. -/
structure ServerRun (Key Ct : Type) where
  server : Server Key
  log : List (ServerAction Key Ct)

/-- A server just started. -/
def ServerRun.start (C : Primitives Key Ct) (cfg : ServerConfig) (time : Time) :
    ServerRun Key Ct :=
  ⟨Server.start C cfg time, []⟩

def serverRunStep (C : Primitives Key Ct) (T : TokenOps Key) (cfg : ServerConfig)
    (r : ServerRun Key Ct) (ev : ServerEvent Ct) : ServerRun Key Ct :=
  ⟨(serverStep C T cfg r.server ev).1, r.log ++ (serverStep C T cfg r.server ev).2⟩

section Run

variable (C : Primitives Key Ct) (T : TokenOps Key) (cfg : ServerConfig)

/-- **The log of a run is the history of a keyring.** -/
theorem run_accounts (time : Time) (es : List (ServerEvent Ct))
    (hcount : (noncePairs (run (serverRunStep C T cfg) (.start C cfg time) es).log).length
      < u64Size) :
    Accounts (run (serverRunStep C T cfg) (.start C cfg time) es).server
      (run (serverRunStep C T cfg) (.start C cfg time) es).log := by
  revert hcount
  refine run_invariant' (fun r : ServerRun Key Ct =>
    (noncePairs r.log).length < u64Size → Accounts r.server r.log) ?_ es
    fun _ => Accounts.start C cfg time
  intro r ev hr hlen
  refine (hr ?_).serverStep C T cfg ev hlen
  simp only [serverRunStep, noncePairs_append, List.length_append] at hlen
  omega

/-! ### Tokens -/

/-- The event does not make the server accept a token it has accepted before. -/
def TokenUnused (r : ServerRun Key Ct) : ServerEvent Ct → Prop
  | .dispatch from_ (.request packet) =>
    match r.server.admits T cfg from_ packet with
    | none => True
    | some _ => Server.requestToken packet ∉ (acceptedTokens r.log).map Prod.fst
  | _ => True

instance (r : ServerRun Key Ct) : (ev : ServerEvent Ct) → Decidable (TokenUnused T cfg r ev)
  | .dispatch from_ (.request packet) =>
    match h : r.server.admits T cfg from_ packet with
    | none => isTrue (by simp only [TokenUnused, h])
    | some _ =>
      decidable_of_iff (Server.requestToken packet ∉ (acceptedTokens r.log).map Prod.fst)
        (by simp only [TokenUnused, h])
  | .dispatch _ (.data _ _) | .beginUpdate _ | .finishUpdate | .send _ _ _ _ | .sendState _ _ _ _
  | .flush _ => isTrue trivial

@[simp] theorem acceptedTokens_did (slot : Nat) (acts : List (SendAction Key Ct)) :
    acceptedTokens (acts.map (.did slot)) = [] := by
  induction acts with
  | nil => rfl
  | cons a rest ih => exact ih

theorem acceptedTokens_processSlots (slots : List Nat) :
    ∀ s : Server Key, acceptedTokens (Server.processSlots C cfg s slots).2 = [] := by
  induction slots with
  | nil => exact fun s => rfl
  | cons slot rest ih =>
    intro s
    simp only [Server.processSlots, acceptedTokens_append, acceptedTokens_did, ih,
      List.append_nil]

/-- A step accepts a token only where the request is admitted. -/
theorem acceptedTokens_step (s : Server Key) (ev : ServerEvent Ct) :
    acceptedTokens (serverStep C T cfg s ev).2 =
      match ev with
      | .dispatch from_ (.request packet) =>
        match s.admits T cfg from_ packet with
        | none => []
        | some (_, token) => [(Server.requestToken packet, token.serverToClientKey)]
      | _ => [] := by
  have hcall : ∀ slot call, acceptedTokens (s.onConnection cfg slot call :
      Server Key × List (ServerAction Key Ct)).2 = [] := by
    intro slot call
    simp only [Server.onConnection]
    split
    · rfl
    · exact acceptedTokens_did _ _
  cases ev with
  | beginUpdate time => rfl
  | finishUpdate => exact acceptedTokens_processSlots C cfg _ _
  | send slot channel data flags => exact hcall _ _
  | sendState slot channel entityId data => exact hcall _ _
  | flush slot => exact hcall _ _
  | dispatch from_ packet =>
    cases packet with
    | data wireSlot packet =>
      simp only [serverStep, Server.dispatchPacket]
      split
      · split
        · rfl
        · exact acceptedTokens_did _ _
      · rfl
    | request packet =>
      simp only [serverStep, Server.dispatchPacket, Server.admits]
      split
      · simp only [Server.handleConnectionRequest]
        cases hpass : s.passesChecks T cfg from_ packet with
        | none => rfl
        | some token =>
          have hfree : (s.rememberToken T from_ packet).freeSlots = s.freeSlots := rfl
          simp only [hfree]
          cases s.freeSlots with
          | nil => rfl
          | cons slot rest =>
            show _ :: acceptedTokens (List.map _ _) = _
            rw [acceptedTokens_did]
      · rfl

/-- Where no accepted token is accepted again, the accepted tokens are distinct. -/
theorem run_tokens_nodup (time : Time) (es : List (ServerEvent Ct))
    (hunused : Along (serverRunStep C T cfg) (TokenUnused T cfg) (.start C cfg time) es) :
    ((acceptedTokens (run (serverRunStep C T cfg) (.start C cfg time) es).log).map
      Prod.fst).Nodup := by
  refine run_invariant (fun r : ServerRun Key Ct => ((acceptedTokens r.log).map Prod.fst).Nodup)
    ?_ List.nodup_nil hunused
  intro r ev hr hev
  simp only [serverRunStep, acceptedTokens_append, acceptedTokens_step]
  split
  · rename_i from_ packet
    simp only [TokenUnused] at hev
    split
    · simpa using hr
    · rename_i hadmits
      rw [hadmits] at hev
      rw [List.map_append, List.nodup_append]
      refine ⟨hr, List.nodup_singleton _, ?_⟩
      intro a ha b hb
      rw [List.map_cons, List.map_nil, List.mem_singleton] at hb
      rintro rfl
      rw [hb] at ha
      exact hev ha
  · simpa using hr

/-! ### Keys -/

/-- Every transmit key in force so far: those of the tokens and those derived. -/
def usedKeys (log : List (ServerAction Key Ct)) : List Key :=
  (acceptedTokens log).map Prod.snd ++ derivedKeys log

/-- `derive_key` returns a key not used before. -/
def DerivesUnused (log : List (ServerAction Key Ct)) : ServerAction Key Ct → Prop
  | .did _ (.rekeyed key) => key ∉ usedKeys log
  | _ => True

instance [DecidableEq Key] (log : List (ServerAction Key Ct)) (a : ServerAction Key Ct) :
    Decidable (DerivesUnused log a) := by
  unfold DerivesUnused
  split <;> infer_instance

/-- The assumptions on keys: a derived key has not been used before, two tokens that
carry one key are the same token, and no token carries a derived key. -/
structure KeysIdeal (log : List (ServerAction Key Ct)) : Prop where
  derived : Along (fun before a => before ++ [a]) DerivesUnused [] log
  tokens : ∀ a ∈ acceptedTokens log, ∀ b ∈ acceptedTokens log, a.2 = b.2 → a.1 = b.1
  apart : ∀ a ∈ acceptedTokens log, a.2 ∉ derivedKeys log

theorem mem_installed_keyring (log : List (ServerAction Key Ct)) {key : Key}
    (h : key ∈ (keyring log).installed) : key ∈ usedKeys log := by
  induction log using List.reverseRecOn with
  | nil => cases h
  | append_singleton log a ih =>
    have hmono : key ∈ usedKeys log → key ∈ usedKeys (log ++ [a]) := by
      intro hkey
      simp only [usedKeys, acceptedTokens_append, derivedKeys_append, List.map_append,
        List.mem_append] at hkey ⊢
      tauto
    -- Only an accepted token and a rekey install a key.
    have hinstall : ∀ slot key', keyEvent a = some (.install slot key') →
        key' ∈ usedKeys (log ++ [a]) := by
      intro slot key' hev
      cases a with
      | accepted slot' request token =>
        obtain ⟨-, rfl⟩ := KeyEvent.install.inj (Option.some.inj hev)
        simp [usedKeys, acceptedTokens]
      | did slot' action =>
        cases action with
        | rekeyed key'' =>
          obtain ⟨-, rfl⟩ := KeyEvent.install.inj (Option.some.inj hev)
          simp [usedKeys, derivedKeys]
        | emitted _ _ _ _ => cases hev
        | dequeued _ _ => cases hev
        | recorded _ _ _ => cases hev
    rw [keyring_concat] at h
    split at h
    · exact hmono (ih h)
    · rename_i ev hev
      cases ev with
      | install slot key' =>
        rcases List.mem_append.mp h with hold | hnew
        · exact hmono (ih hold)
        · rw [List.mem_singleton.mp hnew]
          exact hinstall slot key' hev
      | use slot =>
        simp only [Keyring.step] at h
        split at h
        · exact hmono (ih h)
        · exact hmono (ih h)

/-- **With ideal keys and no token accepted twice, every key installed is a new one.** -/
theorem installs_new {log : List (ServerAction Key Ct)} (hkeys : KeysIdeal log)
    (hnodup : ((acceptedTokens log).map Prod.fst).Nodup) :
    Along Keyring.step Keyring.InstallsNew .empty (log.filterMap keyEvent) := by
  refine along_of_split ?_
  intro before ev after hsplit
  obtain ⟨l₁, l₂, rfl, hbefore, hrest⟩ := List.filterMap_eq_append_iff.mp hsplit
  obtain ⟨l₃, a, post, rfl, hquiet, hev, -⟩ := List.filterMap_eq_cons_iff.mp hrest
  have hring : run Keyring.step .empty before = keyring (l₁ ++ l₃) := by
    rw [keyring, List.filterMap_append, hbefore, List.filterMap_eq_nil_iff.mpr hquiet,
      List.append_nil]
  rw [hring]
  rw [← List.append_assoc] at hkeys hnodup
  generalize l₁ ++ l₃ = pre at hkeys hnodup
  cases ev with
  | use slot => exact trivial
  | install slot key =>
    intro hmem
    have hused : key ∈ usedKeys pre := mem_installed_keyring pre hmem
    cases a with
    | accepted slot' request token =>
      obtain ⟨-, rfl⟩ := KeyEvent.install.inj (Option.some.inj hev)
      have hthis : (Server.requestToken request, token.serverToClientKey) ∈
          acceptedTokens (pre ++ .accepted slot' request token :: post) := by
        simp [acceptedTokens]
      rcases List.mem_append.mp hused with htoken | hderived
      · -- The same token, then, which is accepted only once.
        obtain ⟨b, hb, hkey⟩ := List.mem_map.mp htoken
        have hsame := hkeys.tokens b (by simp [hb]) _ hthis hkey
        rw [acceptedTokens_append, List.map_append, List.nodup_append] at hnodup
        exact hnodup.2.2 b.1 (List.mem_map_of_mem hb) (Server.requestToken request)
          List.mem_cons_self hsame
      · exact hkeys.apart _ hthis (by simp [hderived])
    | did slot' action =>
      cases action with
      | rekeyed key' =>
        obtain ⟨-, rfl⟩ := KeyEvent.install.inj (Option.some.inj hev)
        have hnew := (along_append.mp hkeys.derived).2.1
        rw [run_history, List.nil_append] at hnew
        exact hnew hused
      | emitted _ _ _ _ => cases hev
      | dequeued _ _ => cases hev
      | recorded _ _ _ => cases hev

/-- **No nonce is used twice under one key** in a run in which the server accepts no
token it has accepted before, with ideal keys and fewer packets than a counter can
number. -/
theorem nonce_never_reused (time : Time) (es : List (ServerEvent Ct))
    (hunused : Along (serverRunStep C T cfg) (TokenUnused T cfg) (.start C cfg time) es)
    (hkeys : KeysIdeal (run (serverRunStep C T cfg) (.start C cfg time) es).log)
    (hcount : (noncePairs (run (serverRunStep C T cfg) (.start C cfg time) es).log).length
      < u64Size) :
    (noncePairs (run (serverRunStep C T cfg) (.start C cfg time) es).log).Nodup := by
  have hacc := run_accounts C T cfg time es hcount
  rw [← hacc.used]
  exact Keyring.used_nodup (installs_new hkeys (run_tokens_nodup C T cfg time es hunused))

end Run

/-! ### Runs on concrete packets -/

/-- Two tokens, told apart by their first encrypted byte. -/
def toyTokens : TokenOps Nat where
  openPrivate _ _ ct :=
    if ct.headD 0 = 0 then some ⟨5, 10, 1, 2, [], .replicate 256 0⟩
    else some ⟨6, 10, 3, 4, [], .replicate 256 0⟩
  fingerprint ct := (ct.headD 0).toNat

/-- A request for protocol 7 with a token that expires at 1000. -/
def toyRequest (firstByte : UInt8) : Bytes :=
  0 :: versionInfo ++ leBytes 8 7 ++ leBytes 8 1000 ++ List.replicate 24 0 ++
    firstByte :: List.replicate 1023 0

/-- Two slots, one channel. -/
def toyServerConfig : ServerConfig where
  protocolId := 7
  maxClients := 2
  channels := [{}]

/-- Where the first client sends from. -/
def toyAddress : Address :=
  { data := #v[10, 0, 0, 1, 0, 0, 0, 0, 0, 0, 0, 0, 0, 0, 0, 0], port := 4000, type := 1 }

/-- Two clients, of which the first rekeys; then keepalives for both. -/
def twoClients : List (ServerEvent (Sealed Nat)) :=
  [.beginUpdate 1,
    .dispatch toyAddress (.request (toyRequest 0)),
    .dispatch { toyAddress with data := toyAddress.data.set 3 2 } (.request (toyRequest 1)),
    .dispatch toyAddress (.data 0 ⟨packetPrefixDataRekey,
      ⟨1, buildNonce 0, buildAad 7 packetPrefixDataRekey, List.replicate 8 0⟩⟩),
    .beginUpdate 3,
    .finishUpdate]

theorem nonce_never_reused_two_clients :
    let log := (run (serverRunStep toyCipher toyTokens toyServerConfig)
      (.start toyCipher toyServerConfig 0) twoClients).log
    noncePairs log = [(2, 0), (4, 0), (102, 0), (4, 1)] ∧ (noncePairs log).Nodup :=
  ⟨by decide +kernel, nonce_never_reused toyCipher toyTokens toyServerConfig 0 twoClients
    (by decide +kernel) ⟨by decide +kernel, by decide +kernel, by decide +kernel⟩
    (by decide +kernel)⟩

/-- A client times out and connects again from its address with its token, which is still
valid: the server accepts it and sends a second packet under key 2 and nonce 0. -/
theorem nonce_reused_on_reconnect :
    let log := (run (serverRunStep toyCipher toyTokens toyServerConfig)
      (.start toyCipher toyServerConfig 0)
      [.beginUpdate 1,
        .dispatch toyAddress (.request (toyRequest 0)),
        .beginUpdate 20,
        .finishUpdate,
        .dispatch toyAddress (.request (toyRequest 0))]).log
    KeysIdeal log ∧ noncePairs log = [(2, 0), (2, 0)] ∧ ¬ (noncePairs log).Nodup :=
  ⟨⟨by decide +kernel, by decide +kernel, by decide +kernel⟩, by decide +kernel,
    by decide +kernel⟩

end Netudp
