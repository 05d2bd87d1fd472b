/-
The send queue of a channel.

What `queue_send`, `queue_send_state` and `dequeue_send` make of a channel is a bounded
queue with keyed replacement: a state update waits under the id of its entity, anything
else waits under no key, and the sequence of a message is its number, of which 16 bits are
kept.  The circular buffer with its moving head and the scan for a pending update are
how the code does it; step by step they answer as the queue does and hold what it holds.

A size that is not positive is the empty list of bytes: the code refuses both alike.
-/
import Netudp.Lib.KeyedQueue
import Netudp.Lib.Run
import Netudp.Proofs.Channel

namespace Netudp

open Lib

/-! ### Calls -/

/-- A call on a channel. -/
inductive ChannelCall where
  /-- `queue_send`. -/
  | send (data : Bytes) (flags : SendFlags)
  /-- `queue_send_state`. -/
  | sendState (data : Bytes) (flags : SendFlags) (eid : Nat)
  /-- `dequeue_send`. -/
  | dequeue

/-- What a call returns. -/
inductive ChannelReply where
  | queued (ok : Bool)
  | taken (msg : Option QueuedMessage)

def Channel.call (c : Channel) : ChannelCall → ChannelReply × Channel
  | .send data flags => Prod.map .queued id (c.queueSend data flags)
  | .sendState data flags eid => Prod.map .queued id (c.queueSendState data flags eid)
  | .dequeue => Prod.map .taken id c.dequeueSend

/-- Calls with what they returned, newest first. -/
abbrev CallLog := List (ChannelCall × ChannelReply)

/-- A call, and a note of it. -/
def recordCall {σ : Type} (call : σ → ChannelCall → ChannelReply × σ) (r : σ × CallLog)
    (x : ChannelCall) : σ × CallLog :=
  ((call r.1 x).2, (x, (call r.1 x).1) :: r.2)

/-- The bytes of the state update for the entity that was accepted last. -/
def latestState (eid : Nat) : CallLog → Option Bytes
  | [] => none
  | (.sendState data _ e, .queued true) :: rest => if e = eid then some data else latestState eid rest
  | _ :: rest => latestState eid rest

/-! ### The queue they make -/

/-- The bytes and flags of a message, a state update under the id of its entity. -/
abbrev SendQueue := KeyedQueue Nat (Bytes × SendFlags) 256

/-- An id of 0 is no key. -/
def sendKey (eid : Nat) : Option Nat := if eid = 0 then none else some eid

/-- A message of 1 to 1200 bytes is put in. -/
def SendQueue.accept (q : SendQueue) (key : Option Nat) (data : Bytes) (flags : SendFlags) :
    Bool × SendQueue :=
  if data.length = 0 ∨ mtu < data.length then (false, q) else q.put key (data, flags)

/-- The item as the channel has it. -/
def queuedMessage (item : Item Nat (Bytes × SendFlags)) : QueuedMessage :=
  ⟨item.value.1, item.number % u16Size, item.key.getD 0, item.value.2, true⟩

def SendQueue.call (q : SendQueue) : ChannelCall → ChannelReply × SendQueue
  | .send data flags => Prod.map .queued id (SendQueue.accept q none data flags)
  | .sendState data flags eid =>
    Prod.map .queued id (SendQueue.accept q (sendKey eid) data (flags ||| sendState))
  | .dequeue => Prod.map (fun item => .taken (item.map queuedMessage)) id q.take

/-! ### Refinement -/

/-- The channel holds what the queue holds. -/
structure Shows (c : Channel) (q : SendQueue) : Prop where
  queue : c.queue = q.items.map queuedMessage
  sendSeq : c.sendSeq = q.next % u16Size
  keyed : ∀ item ∈ q.items, ∀ k, item.key = some k →
    k ≠ 0 ∧ hasFlag item.value.2 sendState = true

/-- A state update of the entity. -/
def QueuedMessage.IsState (msg : QueuedMessage) (eid : Nat) : Prop :=
  msg.entityId = eid ∧ hasFlag msg.flags sendState = true

theorem shows_init (c : Channel) (config : ChannelConfig) : Shows (c.init config) .empty :=
  ⟨rfl, rfl, List.forall_mem_nil _⟩

namespace Shows

variable {c : Channel} {q : SendQueue}

theorem size_eq (h : Shows c q) : c.sendQueue.size = q.items.length := by
  have hlen : c.queue.length = c.sendQueue.size := FixedRingBuffer.length_toList
  rw [← hlen, h.queue, List.length_map]

theorem isState_iff (h : Shows c q) {item : Item Nat (Bytes × SendFlags)} (hitem : item ∈ q.items)
    {eid : Nat} (heid : eid ≠ 0) : (queuedMessage item).IsState eid ↔ item.key = some eid := by
  have hkeyed := h.keyed item hitem
  constructor
  · intro hstate
    have hid : item.key.getD 0 = eid := hstate.1
    cases hkey : item.key with
    | none =>
      rw [hkey] at hid
      exact absurd hid.symm heid
    | some k =>
      rw [hkey] at hid
      exact congrArg some hid
  · intro hkey
    refine ⟨?_, (hkeyed eid hkey).2⟩
    show item.key.getD 0 = eid
    rw [hkey, Option.getD_some]

end Shows

section Scan

variable {r : FixedRingBuffer 256 QueuedMessage} {eid : Nat}

theorem findState_some {n i : Nat} (h : Channel.findState r eid n = some i) :
    i < n ∧ (r.get i).IsState eid := by
  induction n with
  | zero => cases h
  | succ n ih =>
    rw [Channel.findState] at h
    split at h
    · rename_i hfound
      obtain rfl := Option.some.inj h
      exact ⟨Nat.lt_succ_self n, hfound⟩
    · obtain ⟨hlt, hstate⟩ := ih h
      exact ⟨Nat.lt_succ_of_lt hlt, hstate⟩

/-- If it finds nothing, there is none. -/
theorem findState_none {n i : Nat} (h : Channel.findState r eid n = none) (hi : i < n) :
    ¬ (r.get i).IsState eid := by
  induction n with
  | zero => exact absurd hi (Nat.not_lt_zero i)
  | succ n ih =>
    rw [Channel.findState] at h
    split at h
    · cases h
    · rename_i hother
      rcases Nat.lt_succ_iff_lt_or_eq.mp hi with hlt | rfl
      · exact ih h hlt
      · exact hother

end Scan

theorem hasFlag_or_self (flags f : SendFlags) (h : f ≠ 0) : hasFlag (flags ||| f) f = true := by
  have habsorb : (flags ||| f) &&& f = f := by
    ext i hi
    rw [BitVec.getElem_and, BitVec.getElem_or]
    cases flags[i] <;> cases f[i] <;> rfl
  rw [hasFlag, habsorb]
  exact bne_iff_ne.mpr h

theorem Channel.enqueue_full {c : Channel} (h : c.sendQueue.size = 256) (data : Bytes)
    (flags : SendFlags) (eid : Nat) : c.enqueue data flags eid = (false, c) := by
  rw [Channel.enqueue, if_pos h]

namespace Shows

variable {c : Channel} {q : SendQueue}

/-- The part of `queue_send_impl` that appends. -/
theorem enqueue (h : Shows c q) {key : Option Nat} (hheld : ¬ q.Holds key) {flags : SendFlags}
    (hkey : ∀ k, key = some k → k ≠ 0 ∧ hasFlag flags sendState = true) (data : Bytes) :
    (c.enqueue data flags (key.getD 0)).1 = (q.put key (data, flags)).1 ∧
      Shows (c.enqueue data flags (key.getD 0)).2 (q.put key (data, flags)).2 := by
  have hsize := h.size_eq
  have hbound := q.bounded
  by_cases hroom : q.items.length < 256
  · have hput : q.put key (data, flags) = (true, q.append key (data, flags) hroom hheld) := by
      rw [KeyedQueue.put, dif_neg hheld, dif_pos hroom]
    have haccepted : (c.enqueue data flags (key.getD 0)).1 = true := by
      rw [Channel.enqueue, if_neg (by omega)]
    obtain ⟨hqueue, hseq, -⟩ := Channel.enqueue_true (Prod.ext haccepted rfl)
    rw [hput]
    refine ⟨haccepted, ?_, ?_, ?_⟩
    · have hitems : (q.append key (data, flags) hroom hheld).items
          = q.items ++ [⟨key, q.next, (data, flags)⟩] := rfl
      rw [hqueue, h.queue, h.sendSeq, hitems, List.map_append]
      rfl
    · rw [hseq, h.sendSeq]
      show (q.next % u16Size + 1) % u16Size = (q.next + 1) % u16Size
      rw [Nat.mod_add_mod]
    · intro item hitem k hk
      rcases List.mem_append.mp hitem with hold | hnew
      · exact h.keyed item hold k hk
      · obtain rfl := List.mem_singleton.mp hnew
        exact hkey k hk
  · have hput : q.put key (data, flags) = (false, q) := by
      rw [KeyedQueue.put, dif_neg hheld, dif_neg hroom]
    rw [hput, Channel.enqueue_full (by omega)]
    exact ⟨rfl, h⟩

theorem item_at (h : Shows c q) {i : Nat} {msg : QueuedMessage} (hmsg : c.queue[i]? = some msg) :
    ∃ item, q.items[i]? = some item ∧ queuedMessage item = msg := by
  rw [h.queue, List.getElem?_map] at hmsg
  exact Option.map_eq_some_iff.mp hmsg

/-- If the scan finds nothing, nothing waits under the key. -/
theorem not_holds (h : Shows c q) {eid : Nat} (heid : eid ≠ 0)
    (hfound : Channel.findState c.sendQueue eid c.sendQueue.size = none) :
    ¬ q.Holds (some eid) := by
  rw [KeyedQueue.holds_some_iff]
  rintro ⟨item, hitem, hkey⟩
  obtain ⟨i, hi⟩ := List.mem_iff_getElem?.mp hitem
  have hsize : i < c.sendQueue.size := by
    rw [h.size_eq]
    exact (List.getElem?_eq_some_iff.mp hi).1
  obtain ⟨item', hitem', hget⟩ := h.item_at (FixedRingBuffer.getElem?_toList hsize)
  obtain rfl : item = item' := Option.some.inj (hi.symm.trans hitem')
  refine findState_none hfound hsize ?_
  rw [← hget]
  exact (h.isState_iff hitem heid).mpr hkey

/-- A position written is the item of its key assigned: no other has the key. -/
theorem map_set_eq (q : SendQueue) {i eid : Nat} {item : Item Nat (Bytes × SendFlags)}
    (hitem : q.items[i]? = some item) (hkey : item.key = some eid) (data : Bytes)
    (flags : SendFlags) :
    (q.items.map queuedMessage).set i
        { queuedMessage item with data := data, flags := flags }
      = (q.overwrite (some eid) (data, flags)).items.map queuedMessage := by
  have hitems : (q.overwrite (some eid) (data, flags)).items =
      q.items.map (Item.assign (some eid) (data, flags)) := rfl
  have hlen : i < (q.items.map queuedMessage).length := by
    rw [List.length_map]
    exact (List.getElem?_eq_some_iff.mp hitem).1
  refine List.ext_getElem? fun j => ?_
  rw [hitems, List.map_map, List.getElem?_set, if_pos hlen, List.getElem?_map, List.getElem?_map]
  by_cases hij : i = j
  · subst hij
    rw [if_pos rfl, hitem, Option.map_some, Function.comp_apply, Item.assign, if_pos hkey]
    rfl
  · rw [if_neg hij]
    cases hother : q.items[j]? with
    | none => rfl
    | some other =>
      have hne : other.key ≠ some eid := fun hother' =>
        hij (q.place_unique hitem hother hkey hother')
      rw [Option.map_some, Option.map_some, Function.comp_apply, Item.assign, if_neg hne]

theorem overwrite (h : Shows c q) {eid i : Nat} (heid : eid ≠ 0) (hi : i < c.sendQueue.size)
    (hstate : (c.sendQueue.get i).IsState eid) {flags : SendFlags}
    (hflags : hasFlag flags sendState = true) (data : Bytes) :
    let msg : QueuedMessage := { c.sendQueue.get i with data := data, flags := flags }
    q.Holds (some eid) ∧
      Shows ({ c with sendQueue := c.sendQueue.set i msg }.bypassNagle flags)
        (q.overwrite (some eid) (data, flags)) := by
  intro msg
  obtain ⟨item, hitem, hmsg⟩ := h.item_at (FixedRingBuffer.getElem?_toList hi)
  have hmem := List.mem_of_getElem? hitem
  rw [← hmsg, h.isState_iff hmem heid] at hstate
  refine ⟨KeyedQueue.holds_some_iff.mpr ⟨item, hmem, hstate⟩, ?_⟩
  have hqueue : (c.sendQueue.set i msg).toList
      = (q.overwrite (some eid) (data, flags)).items.map queuedMessage := by
    have hold : c.sendQueue.toList = q.items.map queuedMessage := h.queue
    rw [FixedRingBuffer.toList_set hi, hold, ← map_set_eq q hitem hstate, hmsg]
  have hkeyed : ∀ item ∈ (q.overwrite (some eid) (data, flags)).items, ∀ k, item.key = some k →
      k ≠ 0 ∧ hasFlag item.value.2 sendState = true := by
    intro item hitem k hk
    obtain ⟨old, hold, rfl⟩ := List.mem_map.mp hitem
    rw [Item.key_assign] at hk
    refine ⟨(h.keyed old hold k hk).1, ?_⟩
    unfold Item.assign
    split
    · exact hflags
    · exact (h.keyed old hold k hk).2
  unfold Channel.bypassNagle
  split
  · exact ⟨hqueue, h.sendSeq, hkeyed⟩
  · exact ⟨hqueue, h.sendSeq, hkeyed⟩

/-- `queue_send_impl`. -/
theorem accept (h : Shows c q) (flags : SendFlags) (eid : Nat)
    (hplain : eid ≠ 0 → hasFlag flags sendState = true) (data : Bytes) :
    (c.queueSendImpl data flags eid).1 = (SendQueue.accept q (sendKey eid) data flags).1 ∧
      Shows (c.queueSendImpl data flags eid).2 (SendQueue.accept q (sendKey eid) data flags).2 := by
  unfold Channel.queueSendImpl SendQueue.accept
  split
  · exact ⟨rfl, h⟩
  by_cases heid : eid = 0
  · -- No key, nothing to look for.
    subst heid
    have hkey : sendKey 0 = none := if_pos rfl
    rw [if_neg (fun hc => hc.2 rfl), hkey]
    exact h.enqueue (KeyedQueue.not_holds_none q) (fun k hk => by cases hk) data
  · have hkey : sendKey eid = some eid := if_neg heid
    rw [if_pos ⟨hplain heid, heid⟩, hkey]
    cases hfound : Channel.findState c.sendQueue eid c.sendQueue.size with
    | some i =>
      obtain ⟨hi, hstate⟩ := findState_some hfound
      obtain ⟨hheld, hshows⟩ := h.overwrite heid hi hstate (hplain heid) data
      rw [KeyedQueue.put, dif_pos hheld]
      exact ⟨rfl, hshows⟩
    | none =>
      refine h.enqueue (h.not_holds heid hfound) ?_ data
      intro k hk
      obtain rfl := Option.some.inj hk
      exact ⟨heid, hplain heid⟩

theorem dequeue (h : Shows c q) :
    c.dequeueSend.1 = q.take.1.map queuedMessage ∧ Shows c.dequeueSend.2 q.take.2 := by
  cases hitems : q.items with
  | nil =>
    have hnil : c.queue = [] := by rw [h.queue, hitems, List.map_nil]
    have htail : q.tail = q := by
      refine KeyedQueue.ext ?_ rfl
      show q.items.tail = q.items
      rw [hitems, List.tail_nil]
    rw [Channel.dequeueSend_nil hnil, KeyedQueue.take, hitems, htail]
    exact ⟨rfl, h⟩
  | cons item rest =>
    have hcons : c.queue = queuedMessage item :: rest.map queuedMessage := by
      rw [h.queue, hitems, List.map_cons]
    obtain ⟨r, hrest, hdequeue⟩ := Channel.dequeueSend_cons hcons
    have htail : q.tail.items = rest := by
      show q.items.tail = rest
      rw [hitems, List.tail_cons]
    rw [hdequeue, KeyedQueue.take, hitems]
    refine ⟨rfl, ?_, h.sendSeq, ?_⟩
    · rw [htail]
      exact hrest
    · intro other hother
      rw [htail] at hother
      refine h.keyed other ?_
      rw [hitems]
      exact List.mem_cons_of_mem item hother

/-- **A call answers as the queue does, and what it leaves is what the queue holds.** -/
theorem call (h : Shows c q) (x : ChannelCall) :
    (c.call x).1 = (SendQueue.call q x).1 ∧ Shows (c.call x).2 (SendQueue.call q x).2 := by
  cases x with
  | send data flags =>
    obtain ⟨hreply, hshows⟩ := h.accept flags 0 (fun h0 => absurd rfl h0) data
    exact ⟨congrArg ChannelReply.queued hreply, hshows⟩
  | sendState data flags eid =>
    have hflag : hasFlag (flags ||| sendState) sendState = true :=
      hasFlag_or_self flags sendState (by decide)
    obtain ⟨hreply, hshows⟩ := h.accept (flags ||| sendState) eid (fun _ => hflag) data
    exact ⟨congrArg ChannelReply.queued hreply, hshows⟩
  | dequeue =>
    obtain ⟨hreply, hshows⟩ := h.dequeue
    exact ⟨congrArg ChannelReply.taken hreply, hshows⟩

end Shows

/-! ### Refused and accepted -/

/-- The bytes a call brings. -/
def ChannelCall.data : ChannelCall → Bytes
  | .send data _ => data
  | .sendState data _ _ => data
  | .dequeue => []

/-- The size is not in 1 to 1200, or the queue is full. -/
def Refusable (q : SendQueue) (data : Bytes) : Prop :=
  data.length = 0 ∨ mtu < data.length ∨ q.items.length = 256

theorem accept_cases (q : SendQueue) (key : Option Nat) (data : Bytes) (flags : SendFlags) :
    SendQueue.accept q key data flags = (false, q) ∧ Refusable q data ∨
      ∃ q', q.put key (data, flags) = (true, q') ∧
        SendQueue.accept q key data flags = (true, q') := by
  unfold SendQueue.accept
  split
  · rename_i hsize
    exact Or.inl ⟨rfl, hsize.imp_right Or.inl⟩
  · have hbound := q.bounded
    unfold KeyedQueue.put
    split
    · exact Or.inr ⟨_, rfl, rfl⟩
    split
    · exact Or.inr ⟨_, rfl, rfl⟩
    · exact Or.inl ⟨rfl, Or.inr (Or.inr (by omega))⟩

theorem call_refused {q : SendQueue} {x : ChannelCall}
    (h : (SendQueue.call q x).1 = .queued false) :
    (SendQueue.call q x).2 = q ∧ Refusable q x.data := by
  have hcase : ∀ (key : Option Nat) (data : Bytes) (flags : SendFlags),
      ChannelReply.queued (SendQueue.accept q key data flags).1 = .queued false →
        (SendQueue.accept q key data flags).2 = q ∧ Refusable q data := by
    intro key data flags hreply
    rcases accept_cases q key data flags with ⟨heq, hwhy⟩ | ⟨q', -, heq⟩
    · rw [heq]
      exact ⟨rfl, hwhy⟩
    · rw [heq] at hreply
      cases hreply
  cases x with
  | send data flags => exact hcase none data flags h
  | sendState data flags eid => exact hcase (sendKey eid) data (flags ||| sendState) h
  | dequeue => cases h

/-- What waits under a key is what was accepted for it last. -/
def Latest (q : SendQueue) (log : CallLog) : Prop :=
  ∀ item ∈ q.items, ∀ k, item.key = some k → k ≠ 0 ∧ latestState k log = some item.value.1

theorem Latest.call {q : SendQueue} {log : CallLog} (h : Latest q log) (x : ChannelCall) :
    Latest (SendQueue.call q x).2 ((x, (SendQueue.call q x).1) :: log) := by
  cases x with
  | send data flags =>
    rcases accept_cases q none data flags with ⟨heq, -⟩ | ⟨q', hput, heq⟩
    · simp only [SendQueue.call, heq]
      exact h
    · simp only [SendQueue.call, heq]
      intro item hitem k hk
      rcases KeyedQueue.mem_put hput hitem hk with ⟨hnone, -⟩ | ⟨-, hold⟩
      · cases hnone
      · exact h item hold k hk
  | sendState data flags eid =>
    rcases accept_cases q (sendKey eid) data (flags ||| sendState) with
      ⟨heq, -⟩ | ⟨q', hput, heq⟩
    · simp only [SendQueue.call, heq]
      exact h
    · simp only [SendQueue.call, heq]
      intro item hitem k hk
      show k ≠ 0 ∧ (if eid = k then some data else latestState k log) = some item.value.1
      rcases KeyedQueue.mem_put hput hitem hk with ⟨hkey, hvalue⟩ | ⟨hkey, hold⟩
      · unfold sendKey at hkey
        split at hkey
        · cases hkey
        · rename_i heid
          obtain rfl := Option.some.inj hkey
          rw [if_pos rfl, hvalue]
          exact ⟨heid, rfl⟩
      · obtain ⟨hk0, hlast⟩ := h item hold k hk
        have hne : eid ≠ k := by
          rintro rfl
          exact hkey (if_neg hk0)
        rw [if_neg hne]
        exact ⟨hk0, hlast⟩
  | dequeue =>
    intro item hitem k hk
    exact h item (List.mem_of_mem_tail hitem) k hk

/-! ### Whole runs -/

theorem shows_run (c : Channel) (config : ChannelConfig) (calls : List ChannelCall) :
    let r := run (recordCall Channel.call) (c.init config, []) calls
    let t := run (recordCall SendQueue.call) (KeyedQueue.empty, []) calls
    Shows r.1 t.1 ∧ r.2 = t.2 ∧ Latest t.1 t.2 := by
  refine run_simulates (fun (r : Channel × CallLog) (t : SendQueue × CallLog) =>
    Shows r.1 t.1 ∧ r.2 = t.2 ∧ Latest t.1 t.2) ?_ calls
    ⟨shows_init c config, rfl, List.forall_mem_nil _⟩
  rintro r t x ⟨hshows, hlog, hlatest⟩
  obtain ⟨hreply, hnext⟩ := hshows.call x
  refine ⟨hnext, ?_, hlatest.call x⟩
  rw [recordCall, recordCall, hreply, hlog]

/-- **The send queue of a channel is a queue with keyed replacement.**  Over any calls from
its initialisation on, the channel answers as the queue and holds what the queue holds.
So it never has more than 256 messages, their sequences are consecutive, an entity has at
most one pending state update, with the bytes that were accepted last, and a call that is
refused changes nothing. -/
theorem send_queue_refines (c : Channel) (config : ChannelConfig) (calls : List ChannelCall) :
    let r := run (recordCall Channel.call) (c.init config, []) calls
    let t := run (recordCall SendQueue.call) (KeyedQueue.empty, []) calls
    (r.2 = t.2 ∧ r.1.queue = t.1.items.map queuedMessage ∧ r.1.sendSeq = t.1.next % u16Size) ∧
    (r.1.queue.length ≤ 256 ∧ ∀ i msg, r.1.queue[i]? = some msg →
      (msg.sequence + r.1.queue.length) % u16Size = (r.1.sendSeq + i) % u16Size) ∧
    (∀ eid ≠ 0, ∀ (i j : Nat) (m n : QueuedMessage), r.1.queue[i]? = some m →
      r.1.queue[j]? = some n → m.IsState eid → n.IsState eid → i = j) ∧
    (∀ eid ≠ 0, ∀ msg ∈ r.1.queue, msg.IsState eid → latestState eid r.2 = some msg.data) ∧
    (∀ x, (r.1.call x).1 = .queued false →
      (r.1.call x).2.queue = r.1.queue ∧ (r.1.call x).2.sendSeq = r.1.sendSeq ∧
        (x.data.length = 0 ∨ mtu < x.data.length ∨ r.1.queue.length = 256)) := by
  intro r t
  obtain ⟨hshows, hlog, hlatest⟩ : Shows r.1 t.1 ∧ r.2 = t.2 ∧ Latest t.1 t.2 :=
    shows_run c config calls
  have hlength : r.1.queue.length = t.1.items.length := by rw [hshows.queue, List.length_map]
  refine ⟨⟨hlog, hshows.queue, hshows.sendSeq⟩, ⟨?_, ?_⟩, ?_, ?_, ?_⟩
  · rw [hlength]
    exact t.1.bounded
  · intro i msg hmsg
    obtain ⟨item, hitem, rfl⟩ := hshows.item_at hmsg
    show (item.number % u16Size + r.1.queue.length) % u16Size = _
    rw [hlength, hshows.sendSeq, Nat.mod_add_mod, Nat.mod_add_mod, t.1.numbered i item hitem]
  · intro eid heid i j m n hm hn hmstate hnstate
    obtain ⟨a, ha, rfl⟩ := hshows.item_at hm
    obtain ⟨b, hb, rfl⟩ := hshows.item_at hn
    rw [hshows.isState_iff (List.mem_of_getElem? ha) heid] at hmstate
    rw [hshows.isState_iff (List.mem_of_getElem? hb) heid] at hnstate
    exact t.1.place_unique ha hb hmstate hnstate
  · intro eid heid msg hmsg hstate
    rw [hshows.queue] at hmsg
    obtain ⟨item, hitem, rfl⟩ := List.mem_map.mp hmsg
    rw [hshows.isState_iff hitem heid] at hstate
    rw [hlog]
    exact (hlatest item hitem eid hstate).2
  · intro x hreply
    obtain ⟨hsame, hnext⟩ := hshows.call x
    rw [hsame] at hreply
    obtain ⟨hkept, hwhy⟩ := call_refused hreply
    rw [hkept] at hnext
    rw [hnext.queue, hnext.sendSeq, ← hshows.queue, ← hshows.sendSeq, hlength]
    exact ⟨rfl, rfl, hwhy⟩

end Netudp
