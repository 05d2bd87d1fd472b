/-
A fragmented message on its way to the application.

Each fragment comes in a packet of its own.  The packet has to open, its one frame is
read, the fragment goes to the reassembler, and what the last of them completes is copied
into a `DeliveredMessage`.  What the packets that open leave behind is what their
fragments leave behind (`Gathers`), whatever their order; so the message is pushed once,
when every packet has opened, and as much of it as a `DeliveredMessage` holds.
-/
import Netudp.Proofs.Fragments
import Netudp.Proofs.Parsing

namespace Netudp

open Lib FrameAction

variable {Key Ct : Type} {C : Primitives Key Ct} {pid : Nat}

/-! ### The packets -/

theorem calcFragmentCount_full {length : Nat} (hpos : 0 < length)
    (hmax : length ≤ 255 * (mtu - 64)) :
    calcFragmentCount length (mtu - 64) = some ((length + (mtu - 64) - 1) / (mtu - 64)) := by
  have hcount : ¬ maxFragmentCount < (length + (mtu - 64) - 1) / (mtu - 64) := by
    simp only [maxFragmentCount, mtu] at hmax ⊢
    omega
  have hnonzero : ¬ (length = 0 ∨ mtu - 64 = 0) := by
    simp only [mtu]
    omega
  rw [calcFragmentCount, if_neg hnonzero]
  exact if_neg hcount

theorem le_maxMessageSize {length : Nat} (hmax : length ≤ 255 * (mtu - 64)) :
    length ≤ maxMessageSize := by
  simp only [mtu, maxMessageSize] at hmax ⊢
  omega

/-- A message of up to 255 full fragments. -/
def fragmented (message : Bytes) (hpos : 0 < message.length)
    (hmax : message.length ≤ 255 * (mtu - 64)) : Split (mtu - 64) maxMessageSize where
  message := message
  count := (message.length + (mtu - 64) - 1) / (mtu - 64)
  count_eq := calcFragmentCount_full hpos hmax
  fits := le_maxMessageSize hmax

theorem Split.fragment_ne_nil {p cap : Nat} (s : Split p cap) {i : Nat} (hi : i < s.count) :
    s.fragment i ≠ [] := by
  obtain ⟨hp, -, -, -, hlast⟩ := s.count_spec
  have hbegin : i * p ≤ (s.count - 1) * p := Nat.mul_le_mul_right p (by omega)
  refine List.ne_nil_of_length_pos ?_
  rw [Split.fragment, length_block]
  omega

/-- A packet with a fragment arrives. -/
structure FragmentPacket (Ct : Type) where
  index : Nat
  ack : AckFields
  time : Time
  packet : Packet Ct

/-- The frame with a fragment of the message. -/
def fragmentFrame (s : Split (mtu - 64) maxMessageSize) (ch id index : Nat) : Frame :=
  .fragmentData ch id index s.count (s.fragment index)

/-- The packet's ciphertext was made of an acknowledgement and the fragment's frame; no
matter with which key and nonce. -/
def FragmentPacket.Carries (C : Primitives Key Ct) (s : Split (mtu - 64) maxMessageSize)
    (ch id : Nat) (p : FragmentPacket Ct) : Prop :=
  ∃ key nonce aad, C.encrypt key nonce aad
    (writeAckFields p.ack ++ (fragmentFrame s ch id p.index).bytes) = some p.packet.ct

/-- `server_handle_data_packet` for such a packet. -/
def arriveFragment (C : Primitives Key Ct) (pid : Nat) (c : Connection Key)
    (p : FragmentPacket Ct) : Connection Key :=
  (serverHandleDataPacket C pid p.time c p.packet).1

/-- The packet opens under the keys and with the nonce the connection has for it. -/
def Opens (C : Primitives Key Ct) (pid : Nat) (c : Connection Key) (p : FragmentPacket Ct) : Prop :=
  (serverOpenPacket C pid p.time c.keyEpoch p.packet).1.isSome = true
deriving Decidable

theorem opened_eq (hC : C.Ideal) {key : Key} {nonce aad payload pt : Bytes} {now : Time}
    {e : KeyEpoch Key} {p : Packet Ct} (hsealed : C.encrypt key nonce aad payload = some p.ct)
    (h : (serverOpenPacket C pid now e p).1 = some pt) : pt = payload := by
  rcases serverOpenPacket_cases C pid now e p with ⟨pt', hdec, heq⟩ | ⟨-, pt', e', hdec, heq⟩ | heq
  · rw [heq] at h
    obtain rfl := Option.some.inj h
    obtain ⟨-, -, hraw, -⟩ := packetDecrypt_eq_some_iff.mp hdec
    exact ((hC.opens hsealed).mp hraw).2.2.2
  · rw [heq] at h
    obtain rfl := Option.some.inj h
    obtain ⟨-, hraw⟩ := packetDecryptGrace_some hdec
    exact ((hC.opens hsealed).mp hraw).2.2.2
  · rw [heq] at h
    cases h

/-! ### One packet -/

/-- What a fragment does to the data of the connection. -/
def ConnectionData.onFragment (d : ConnectionData) (now : Time) (ch id index count : Nat)
    (data : Bytes) : ConnectionData :=
  match d.fragmentReassembler.onFragmentReceived id index count data (mtu - 64) now with
  | (none, frag) => { d with fragmentReassembler := frag }
  | (some message, frag) =>
    if message.length = 0 then { d with fragmentReassembler := frag }
    else
      { d with
        fragmentReassembler := frag
        deliveredMessages := (d.deliveredMessages.pushBack ⟨message.take mtu, ch, 0, true⟩).2 }

theorem applyFrame_fragment (now : Time) (c : Connection Key) (ch id index count : Nat)
    (data : Bytes) :
    (c.applyFrame now (.fragmentData ch id index count data)).cdata =
      c.cdata.onFragment now ch id index count data := by
  rw [applyFrame_eq_foldl]
  simp only [Connection.onFrame, ConnectionData.onFragment]
  cases c.cdata.fragmentReassembler.onFragmentReceived id index count data (mtu - 64) now with
  | mk complete frag =>
    cases complete with
    | none => rfl
    | some message =>
      by_cases hempty : message.length = 0
      · simp only [if_pos hempty]
        rfl
      · simp only [if_neg hempty]
        rfl

/-- The frame is the only one in its payload. -/
theorem payloadFrames_fragment {s : Split (mtu - 64) maxMessageSize} {ch id index : Nat}
    (hch : ch < 256) (hid : id < u16Size) (hindex : index < s.count) (c : Connection Key)
    (ack : AckFields) :
    payloadFrames c.numChannels (writeAckFields ack ++ (fragmentFrame s ch id index).bytes) =
      [fragmentFrame s ch id index] := by
  have hlen := length_writeAckFields ack
  have hcount := s.count_le
  have hsize : (fragmentFrame s ch id index).bytes.length ≤ mtu := by
    have hmtu : mtu = 1200 := rfl
    have hblock : (s.fragment index).length ≤ mtu - 64 := by
      rw [Split.fragment, length_block]
      exact Nat.min_le_left _ _
    simp only [fragmentFrame, Frame.bytes, List.length_append, List.length_cons, List.length_nil,
      length_leBytes]
    omega
  rw [← serverFrameLoop_frames 0 c]
  refine (serverFrameLoop_reads_back 0 c ?_ ?_ (List.IsChain.singleton _) fun f hf => ?_).1
  · rw [List.length_append, hlen]
    exact Nat.le_add_right _ _
  · rw [List.drop_left' hlen, List.flatMap_singleton]
  · obtain rfl := List.mem_singleton.mp hf
    exact ⟨⟨hch, hid, by omega, by omega, s.fragment_ne_nil hindex⟩, hsize⟩

/-- A packet that opens hands its fragment on, another one leaves the data alone. -/
theorem arriveFragment_cdata (hC : C.Ideal) {s : Split (mtu - 64) maxMessageSize} {ch id : Nat}
    (hch : ch < 256) (hid : id < u16Size) {p : FragmentPacket Ct} (hindex : p.index < s.count)
    (hcarries : p.Carries C s ch id) (c : Connection Key) :
    (arriveFragment C pid c p).cdata =
      if Opens C pid c p then
        c.cdata.onFragment p.time ch id p.index s.count (s.fragment p.index)
      else c.cdata := by
  obtain ⟨key, nonce, aad, hsealed⟩ := hcarries
  have htag : ¬ C.ctLen p.packet.ct < 1 := by
    rw [hC.tag hsealed]
    omega
  have hlong : ¬ (writeAckFields p.ack ++ (fragmentFrame s ch id p.index).bytes).length < 8 := by
    rw [List.length_append, length_writeAckFields]
    omega
  obtain ⟨result, e, hopen⟩ : ∃ result e,
      serverOpenPacket C pid p.time c.keyEpoch p.packet = (result, e) := ⟨_, _, rfl⟩
  have hopens : Opens C pid c p ↔ result.isSome = true := by rw [Opens, hopen]
  rw [arriveFragment, serverHandleDataPacket_eq]
  cases result with
  | none =>
    rw [if_neg fun h => Bool.false_ne_true (hopens.mp h)]
    simp only [serverOpenFrames, if_neg htag, hopen]
    rfl
  | some pt =>
    obtain rfl := opened_eq hC hsealed (congrArg Prod.fst hopen)
    rw [if_pos (hopens.mpr rfl)]
    simp only [serverOpenFrames, if_neg htag, hopen, if_neg hlong]
    rw [payloadFrames_fragment hch hid hindex c p.ack]
    exact applyFrame_fragment _ _ _ _ _ _ _

/-! ### All of them -/

section Gathering

variable (s : Split (mtu - 64) maxMessageSize) (ch id : Nat)
  (q : FixedRingBuffer 256 DeliveredMessage)

/-- The message as it is pushed. -/
def pushedMessage : DeliveredMessage := ⟨s.message.take mtu, ch, 0, true⟩

/-- The fragments `got` have come, to a connection that had `q` in its queue. -/
structure Gathers (got : Finset Nat) (d : ConnectionData) : Prop where
  pushed : got = Finset.range s.count →
    d.deliveredMessages.toList = q.toList ++ [pushedMessage s ch]
  waiting : got ≠ Finset.range s.count → d.deliveredMessages = q
  unknown : got = ∅ → d.fragmentReassembler.findTracker id = none ∧
    (∃ i < 16, (d.fragmentReassembler.trackers.get i).active = false) ∧
    ∀ i < 16, (d.fragmentReassembler.trackers.get i).bufferCapacity = maxMessageSize
  known : got ≠ ∅ → got ≠ Finset.range s.count →
    ∃ i, d.fragmentReassembler.findTracker id = some i ∧
      (d.fragmentReassembler.trackers.get i).bufferCapacity = maxMessageSize ∧
      (d.fragmentReassembler.trackers.get i).Gathered s.pieces (mtu - 64) got

variable {s ch id q} {got : Finset Nat} {d : ConnectionData}

/-- Known or not, there is a reassembler with a tracker for the message that does the same
with its next fragment. -/
theorem Gathers.tracker (h : Gathers s ch id q got d) (hopen : got ≠ Finset.range s.count)
    {index : Nat} (hindex : index < s.count) (time : Time) :
    ∃ (r : FragmentReassembler) (i : Nat), r.findTracker id = some i ∧
      (r.trackers.get i).bufferCapacity = maxMessageSize ∧
      (r.trackers.get i).Gathered s.pieces (mtu - 64) got ∧
      d.fragmentReassembler.onFragmentReceived id index s.count (s.fragment index) (mtu - 64)
          time =
        r.onFragmentReceived id index s.count (s.fragment index) (mtu - 64) time := by
  by_cases hempty : got = ∅
  · obtain ⟨hnone, hfree, hcap⟩ := h.unknown hempty
    obtain ⟨i, t, hi, -, -, -, htcap, hholds, hfind, heq⟩ :=
      FragmentReassembler.receive_new hnone hfree hindex time
    refine ⟨_, i, hfind, ?_, ?_, heq⟩
    · rw [FragmentReassembler.get_setTracker_self, htcap, hcap i hi]
    · rw [FragmentReassembler.get_setTracker_self, hempty]
      exact hholds
  · obtain ⟨i, hfind, hcap, hholds⟩ := h.known hempty hopen
    exact ⟨_, i, hfind, hcap, hholds, rfl⟩

theorem Gathers.gather (h : Gathers s ch id q got d) (hroom : q.size < 256)
    {index : Nat} (hindex : index < s.count) (hnew : index ∉ got) (time : Time) :
    Gathers s ch id q (insert index got)
      (d.onFragment time ch id index s.count (s.fragment index)) := by
  have hopen : got ≠ Finset.range s.count := by
    rintro rfl
    exact hnew (Finset.mem_range.mpr hindex)
  obtain ⟨r, i, hfind, hcap, hholds, heq⟩ := h.tracker hopen hindex time
  obtain ⟨t, hreceived, htid, htcap, htactive, htholds⟩ :=
    FragmentReassembler.receive_known hfind hcap hholds hopen hindex time
  have hwaiting := h.waiting hopen
  unfold ConnectionData.onFragment
  rw [heq, hreceived]
  by_cases hlast : insert index got = Finset.range s.count
  · have hmessage : ¬ s.message.length = 0 := by
      obtain ⟨-, -, -, -, hlong⟩ := s.count_spec
      omega
    rw [if_pos hlast]
    simp only [if_neg hmessage]
    refine ⟨fun _ => ?_, fun hne => absurd hlast hne,
      fun hempty => absurd hempty (Finset.insert_ne_empty _ _), fun _ hne => absurd hlast hne⟩
    show (d.deliveredMessages.pushBack _).2.toList = _
    rw [hwaiting]
    exact (FixedRingBuffer.pushBack_of_lt hroom _).2
  · rw [if_neg hlast]
    refine ⟨fun heq => absurd heq hlast, fun _ => hwaiting,
      fun hempty => absurd hempty (Finset.insert_ne_empty _ _), fun _ _ => ⟨i, ?_, ?_, ?_⟩⟩
    · obtain ⟨hi, -, hearlier⟩ := FragmentReassembler.findTracker_eq_some_iff.mp hfind
      exact FragmentReassembler.findTracker_setTracker hi hearlier
        (htactive.trans (decide_eq_true hlast)) htid
    · show ((r.setTracker i t).trackers.get i).bufferCapacity = maxMessageSize
      rw [FragmentReassembler.get_setTracker_self, htcap]
    · show ((r.setTracker i t).trackers.get i).Gathered s.pieces (mtu - 64) _
      rw [FragmentReassembler.get_setTracker_self]
      exact htholds

end Gathering

/-- The fragments whose packets open when they arrive. -/
def openedIndices (C : Primitives Key Ct) (pid : Nat) :
    Connection Key → List (FragmentPacket Ct) → Finset Nat
  | _, [] => ∅
  | c, p :: rest =>
    let more := openedIndices C pid (arriveFragment C pid c p) rest
    if Opens C pid c p then insert p.index more else more

theorem openedIndices_subset (c : Connection Key) (packets : List (FragmentPacket Ct)) :
    openedIndices C pid c packets ⊆ (packets.map FragmentPacket.index).toFinset := by
  induction packets generalizing c with
  | nil => exact Finset.Subset.refl _
  | cons p rest ih =>
    rw [openedIndices, List.map_cons, List.toFinset_cons]
    split
    · exact Finset.insert_subset_insert _ (ih _)
    · exact (ih _).trans (Finset.subset_insert _ _)

/-- All fragments come if all packets open, and not otherwise. -/
theorem openedIndices_eq_iff {packets : List (FragmentPacket Ct)} :
    ∀ {c : Connection Key}, (packets.map FragmentPacket.index).Nodup →
      (openedIndices C pid c packets = (packets.map FragmentPacket.index).toFinset ↔
        Along (arriveFragment C pid) (Opens C pid) c packets) := by
  induction packets with
  | nil => exact fun _ => iff_of_true rfl trivial
  | cons p rest ih =>
    intro c hnodup
    rw [List.map_cons, List.nodup_cons] at hnodup
    obtain ⟨hnew, hrest⟩ := hnodup
    have hnew' : p.index ∉ (rest.map FragmentPacket.index).toFinset :=
      fun hmem => hnew (List.mem_toFinset.mp hmem)
    have hmore : p.index ∉ openedIndices C pid (arriveFragment C pid c p) rest :=
      fun hmem => hnew' (openedIndices_subset _ _ hmem)
    rw [openedIndices, List.map_cons, List.toFinset_cons, Along, ← ih hrest]
    by_cases hopens : Opens C pid c p
    · rw [if_pos hopens, and_iff_right hopens]
      refine ⟨fun heq => ?_, fun heq => by rw [heq]⟩
      have herase := congrArg (fun set => set.erase p.index) heq
      rwa [Finset.erase_insert hmore, Finset.erase_insert hnew'] at herase
    · rw [if_neg hopens]
      refine iff_of_false (fun heq => hmore ?_) fun h => hopens h.1
      rw [heq]
      exact Finset.mem_insert_self _ _

/-- What the packets leave behind is what the fragments of those that open leave behind. -/
theorem gathers_run (hC : C.Ideal) {s : Split (mtu - 64) maxMessageSize} {ch id : Nat}
    (hch : ch < 256) (hid : id < u16Size) {q : FixedRingBuffer 256 DeliveredMessage}
    (hroom : q.size < 256) {packets : List (FragmentPacket Ct)} :
    ∀ {got : Finset Nat} {c : Connection Key}, Gathers s ch id q got c.cdata →
      (packets.map FragmentPacket.index).Nodup →
      (∀ p ∈ packets, p.index < s.count ∧ p.index ∉ got ∧ p.Carries C s ch id) →
      Gathers s ch id q (got ∪ openedIndices C pid c packets)
        (run (arriveFragment C pid) c packets).cdata := by
  induction packets with
  | nil =>
    intro got c h _ _
    rw [openedIndices, Finset.union_empty]
    exact h
  | cons p rest ih =>
    intro got c h hnodup hpackets
    rw [List.map_cons, List.nodup_cons] at hnodup
    obtain ⟨hindex, hnew, hcarries⟩ := hpackets p List.mem_cons_self
    have hcdata : (arriveFragment C pid c p).cdata = _ :=
      arriveFragment_cdata hC hch hid hindex hcarries c
    rw [run_cons, openedIndices]
    by_cases hopens : Opens C pid c p
    · rw [if_pos hopens] at hcdata
      simp only [if_pos hopens]
      have hnext := h.gather hroom hindex hnew p.time
      rw [← hcdata] at hnext
      have hall := ih hnext hnodup.2 fun p' hp' => ?_
      · rwa [Finset.insert_union, ← Finset.union_insert] at hall
      · obtain ⟨hindex', hnew', hcarries'⟩ := hpackets p' (List.mem_cons_of_mem _ hp')
        refine ⟨hindex', fun hmem => ?_, hcarries'⟩
        rcases Finset.mem_insert.mp hmem with heq | hgot
        · exact hnodup.1 (List.mem_map.mpr ⟨p', hp', heq⟩)
        · exact hnew' hgot
    · rw [if_neg hopens] at hcdata
      simp only [if_neg hopens]
      rw [← hcdata] at h
      exact ih h hnodup.2 fun p' hp' => hpackets p' (List.mem_cons_of_mem _ hp')

/-- Without a free tracker for a message that has none, nothing happens. -/
theorem onFragment_full {d : ConnectionData} {id : Nat}
    (hnone : d.fragmentReassembler.findTracker id = none)
    (hfull : ¬ ∃ i < 16, (d.fragmentReassembler.trackers.get i).active = false)
    (now : Time) (ch index count : Nat) (data : Bytes) :
    d.onFragment now ch id index count data = d := by
  have hsearch : ((List.range 16).find? fun i =>
      !(d.fragmentReassembler.trackers.get i).active) = none := by
    rw [List.find?_eq_none]
    intro i hi hidle
    exact hfull ⟨i, List.mem_range.mp hi, by simpa using hidle⟩
  have hreceived : d.fragmentReassembler.onFragmentReceived id index count data (mtu - 64) now =
      (none, d.fragmentReassembler) := by
    simp only [FragmentReassembler.onFragmentReceived, hnone, FragmentReassembler.allocateTracker,
      hsearch, ite_self]
  rw [ConnectionData.onFragment, hreceived]

/-- The packets of all fragments, in any order, and what the queue holds in the end. -/
theorem delivered_eq (hC : C.Ideal) {s : Split (mtu - 64) maxMessageSize} {ch id : Nat}
    (hch : ch < 256) (hid : id < u16Size) {c : Connection Key}
    (hnone : c.cdata.fragmentReassembler.findTracker id = none)
    (hcap : ∀ i < 16, (c.cdata.fragmentReassembler.trackers.get i).bufferCapacity = maxMessageSize)
    (hroom : c.cdata.deliveredMessages.size < 256) {packets : List (FragmentPacket Ct)}
    (horder : (packets.map FragmentPacket.index).Perm (List.range s.count))
    (hcarries : ∀ p ∈ packets, p.Carries C s ch id) :
    (run (arriveFragment C pid) c packets).cdata.deliveredMessages.toList =
      if (∃ i < 16, (c.cdata.fragmentReassembler.trackers.get i).active = false) ∧
          Along (arriveFragment C pid) (Opens C pid) c packets then
        c.cdata.deliveredMessages.toList ++ [pushedMessage s ch]
      else c.cdata.deliveredMessages.toList := by
  have hindex : ∀ p ∈ packets, p.index < s.count := fun p hp =>
    List.mem_range.mp (horder.subset (List.mem_map_of_mem hp))
  have hnodup : (packets.map FragmentPacket.index).Nodup :=
    horder.nodup_iff.mpr List.nodup_range
  by_cases hfree : ∃ i < 16, (c.cdata.fragmentReassembler.trackers.get i).active = false
  · have hne : (∅ : Finset Nat) ≠ Finset.range s.count :=
      (Finset.nonempty_range_iff.mpr (Nat.pos_iff_ne_zero.mp s.count_pos)).ne_empty.symm
    have hstart : Gathers s ch id c.cdata.deliveredMessages ∅ c.cdata :=
      ⟨fun heq => absurd heq hne, fun _ => rfl, fun _ => ⟨hnone, hfree, hcap⟩,
        fun hnonempty => absurd rfl hnonempty⟩
    have hend : Gathers s ch id c.cdata.deliveredMessages (∅ ∪ openedIndices C pid c packets)
        (run (arriveFragment C pid) c packets).cdata :=
      gathers_run hC hch hid hroom hstart hnodup fun p hp =>
        ⟨hindex p hp, Finset.notMem_empty _, hcarries p hp⟩
    have hall : openedIndices C pid c packets = Finset.range s.count ↔
        Along (arriveFragment C pid) (Opens C pid) c packets := by
      have hrange : (List.range s.count).toFinset = Finset.range s.count := by
        ext i
        simp
      rw [← openedIndices_eq_iff hnodup, List.toFinset_eq_of_perm _ _ horder, hrange]
    rw [Finset.empty_union] at hend
    by_cases hopens : Along (arriveFragment C pid) (Opens C pid) c packets
    · rw [if_pos ⟨hfree, hopens⟩]
      exact hend.pushed (hall.mpr hopens)
    · rw [if_neg fun h => hopens h.2]
      exact congrArg FixedRingBuffer.toList (hend.waiting fun heq => hopens (hall.mp heq))
  · rw [if_neg fun h => hfree h.1]
    have hkept : (run (arriveFragment C pid) c packets).cdata = c.cdata := by
      refine run_invariant (fun c' : Connection Key => c'.cdata = c.cdata) ?_ rfl
        (along_of_forall fun p hp => And.intro (hindex p hp) (hcarries p hp))
      intro c' p hc' hp
      rw [arriveFragment_cdata hC hch hid hp.1 hp.2, hc', onFragment_full hnone hfree, ite_self]
    rw [hkept]

/-- **A fragmented message arrives whole, once, if it fits.**  In whatever order the
packets come, exactly one message is pushed and it is the one that was sent, if a tracker
is free, every packet opens when it comes and the message is no longer than the data of a
`DeliveredMessage`; and not otherwise. -/
theorem fragmented_message_arrives_iff (hC : C.Ideal) {message : Bytes}
    (hpos : 0 < message.length) (hmax : message.length ≤ 255 * (mtu - 64)) {ch id : Nat}
    (hch : ch < 256) (hid : id < u16Size) {c : Connection Key}
    (hnone : c.cdata.fragmentReassembler.findTracker id = none)
    (hcap : ∀ i < 16, (c.cdata.fragmentReassembler.trackers.get i).bufferCapacity = maxMessageSize)
    (hroom : c.cdata.deliveredMessages.size < 256) {packets : List (FragmentPacket Ct)}
    (horder : (packets.map FragmentPacket.index).Perm
      (List.range (fragmented message hpos hmax).count))
    (hcarries : ∀ p ∈ packets, p.Carries C (fragmented message hpos hmax) ch id) :
    (run (arriveFragment C pid) c packets).cdata.deliveredMessages.toList =
        c.cdata.deliveredMessages.toList ++ [⟨message, ch, 0, true⟩] ↔
      (∃ i < 16, (c.cdata.fragmentReassembler.trackers.get i).active = false) ∧
        Along (arriveFragment C pid) (Opens C pid) c packets ∧ message.length ≤ mtu := by
  rw [delivered_eq hC hch hid hnone hcap hroom horder hcarries, ← and_assoc]
  split
  · rename_i hopens
    rw [and_iff_right hopens, List.append_cancel_left_eq, List.cons.injEq,
      and_iff_left rfl, pushedMessage, DeliveredMessage.mk.injEq, and_iff_left ⟨rfl, rfl, rfl⟩]
    exact List.take_eq_self_iff _
  · rename_i hnot
    refine iff_of_false (fun heq => ?_) fun h => hnot h.1
    have hlen := congrArg List.length heq
    rw [List.length_append, List.length_singleton] at hlen
    omega

/-! ### Two fragments -/

/-- A connection keyed with the keys 1 and 2. -/
def keyedConnection : Connection Nat :=
  { twoChannels with keyEpoch := serverKeySetup toyCipher 1 2 }

/-- The two fragments of a message of 1137 to 2272 bytes, sealed one after another, the
last one first. -/
def twoFragments (s : Split (mtu - 64) maxMessageSize) : List (FragmentPacket (Sealed Nat)) :=
  [1, 0].zipIdx.map fun (index, nonce) =>
    { index := index
      ack := {}
      time := 0
      packet := ⟨prefixData, 1, buildNonce nonce, buildAad 0 prefixData,
        writeAckFields {} ++ (fragmentFrame s 0 9 index).bytes⟩ }

theorem twoFragments_carry (s : Split (mtu - 64) maxMessageSize) :
    ∀ p ∈ twoFragments s, p.Carries toyCipher s 0 9 := by
  intro p hp
  obtain ⟨⟨index, nonce⟩, -, rfl⟩ := List.mem_map.mp hp
  exact ⟨_, _, _, rfl⟩

theorem twoFragments_order {s : Split (mtu - 64) maxMessageSize} (h : s.count = 2) :
    ((twoFragments s).map FragmentPacket.index).Perm (List.range s.count) := by
  rw [h]
  exact List.Perm.swap 0 1 []

/-- A message of 1140 bytes, in two fragments: it is pushed whole. -/
theorem fitting_message_arrives :
    (run (arriveFragment toyCipher 0) keyedConnection
      (twoFragments (fragmented (List.replicate 1140 7) (by decide +kernel)
        (by decide +kernel)))
      ).cdata.deliveredMessages.toList = [⟨List.replicate 1140 7, 0, 0, true⟩] :=
  (fragmented_message_arrives_iff toyCipher_ideal (by decide +kernel) (by decide +kernel)
    (by decide) (by decide) (by decide) (by decide) (by decide)
    (twoFragments_order (by decide +kernel)) (twoFragments_carry _)).mpr
    ⟨⟨0, by decide, by decide⟩, by decide +kernel, by decide +kernel⟩

/-- A message of 1201 bytes, in two fragments: both packets open, and 1200 of its bytes
are pushed. -/
theorem long_message_cut_off :
    ∃ s : Split (mtu - 64) maxMessageSize, s.message = List.replicate 1201 7 ∧
      Along (arriveFragment toyCipher 0) (Opens toyCipher 0) keyedConnection (twoFragments s) ∧
      (run (arriveFragment toyCipher 0) keyedConnection (twoFragments s)
        ).cdata.deliveredMessages.toList = [⟨List.replicate 1200 7, 0, 0, true⟩] := by
  let s : Split (mtu - 64) maxMessageSize :=
    ⟨List.replicate 1201 7, 2, by decide +kernel, by decide +kernel⟩
  have hopens : Along (arriveFragment toyCipher 0) (Opens toyCipher 0) keyedConnection
      (twoFragments s) := by
    decide +kernel
  refine ⟨s, rfl, hopens, ?_⟩
  rw [delivered_eq toyCipher_ideal (by decide) (by decide) (by decide) (by decide) (by decide)
    (twoFragments_order rfl) (twoFragments_carry s), if_pos ⟨⟨0, by decide, by decide⟩, hopens⟩,
    pushedMessage, List.take_replicate]
  rfl

end Netudp
