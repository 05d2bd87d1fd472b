/-
The receive path, as specifications.

The frames a send path writes are read back one by one, a received packet never touches
what the scheduler of the sending side reads, and the application is handed the messages
at the front of the delivery queue.
-/
import Netudp.Proofs.SendPending
import Netudp.Server.Receive

namespace Netudp

open Lib

variable {Key Ct : Type}

/-! ### Frames written are read back -/

/-- A frame a send path writes, for a receiver with `n` channels. -/
def Frame.Readable (n : Nat) : Frame → Prop
  | .unreliableData ch data => ch < n ∧ data.length < u16Size
  | .reliableData ch msgSeq data => ch < n ∧ msgSeq < u16Size ∧ data.length < u16Size
  | _ => False

theorem leNat_u16 {v : Nat} (h : v < u16Size) :
    leNat [UInt8.ofNat v, UInt8.ofNat (v / 256)] = v :=
  leNat_leBytes_of_lt (w := 2) h

theorem toNat_channel {ch n : Nat} (hn : n ≤ 256) (h : ch < n) : (UInt8.ofNat ch).toNat = ch := by
  rw [UInt8.toNat_ofNat']
  exact Nat.mod_eq_of_lt (by omega)

theorem readFrame_bytes {n : Nat} (hn : n ≤ 256) {f : Frame} (hf : f.Readable n) (tail : Bytes) :
    readFrame n (f.bytes ++ tail) = some (f, tail) := by
  cases f with
  | unreliableData ch data =>
    obtain ⟨hch, hdata⟩ := hf
    have hbytes : (Frame.unreliableData ch data).bytes ++ tail = frameUnreliableData ::
        UInt8.ofNat ch :: UInt8.ofNat data.length :: UInt8.ofNat (data.length / 256) ::
          (data ++ tail) := by
      simp [Frame.bytes, leBytes]
    rw [hbytes]
    simp [readFrame, toNat_channel hn hch, leNat_u16 hdata, hch]
  | reliableData ch msgSeq data =>
    obtain ⟨hch, hseq, hdata⟩ := hf
    have hbytes : (Frame.reliableData ch msgSeq data).bytes ++ tail = frameReliableData ::
        UInt8.ofNat ch :: UInt8.ofNat msgSeq :: UInt8.ofNat (msgSeq / 256) ::
          UInt8.ofNat data.length :: UInt8.ofNat (data.length / 256) :: (data ++ tail) := by
      simp [Frame.bytes, leBytes]
    rw [hbytes]
    have htype : frameReliableData ≠ frameUnreliableData := by decide
    simp [readFrame, toNat_channel hn hch, leNat_u16 hdata, leNat_u16 hseq, hch, htype]
  | fragmentData ch msgId fragIdx fragCnt data => exact absurd hf id
  | disconnect reason => exact absurd hf id

/-- A sequence of frames is read back, for any fuel of at least its length. -/
theorem readFrames_bytes {n : Nat} (hn : n ≤ 256) :
    ∀ (fs : List Frame) (fuel : Nat), (∀ f ∈ fs, f.Readable n) → fs.length ≤ fuel →
      readFrames n fuel (fs.flatMap Frame.bytes) = fs := by
  intro fs
  induction fs with
  | nil =>
    intro fuel _ _
    cases fuel with
    | zero => rfl
    | succ fuel => rfl
  | cons f rest ih =>
    intro fuel hfs hfuel
    cases fuel with
    | zero => exact absurd hfuel (by simp)
    | succ fuel =>
      rw [List.flatMap_cons, readFrames,
        readFrame_bytes hn (hfs f List.mem_cons_self)]
      simp only
      rw [ih fuel (fun g hg => hfs g (List.mem_cons_of_mem f hg)) (by simpa using hfuel)]

theorem length_le_flatMap_bytes {n : Nat} (fs : List Frame) (hfs : ∀ f ∈ fs, f.Readable n) :
    fs.length ≤ (fs.flatMap Frame.bytes).length := by
  induction fs with
  | nil => exact Nat.le_refl 0
  | cons f rest ih =>
    have hrest := ih fun g hg => hfs g (List.mem_cons_of_mem f hg)
    have hpos : 1 ≤ f.bytes.length := by
      cases f <;> simp [Frame.bytes]
    rw [List.flatMap_cons, List.length_append, List.length_cons]
    omega

/-- **The frames of a payload are read back**: eight bytes of acknowledgement and the
frames one after another. -/
theorem payloadFrames_bytes {n : Nat} (hn : n ≤ 256) {ack : Bytes} (hack : ack.length = 8)
    {fs : List Frame} (hfs : ∀ f ∈ fs, f.Readable n) :
    payloadFrames n (ack ++ fs.flatMap Frame.bytes) = fs := by
  unfold payloadFrames
  rw [List.drop_left' hack]
  apply readFrames_bytes hn fs _ hfs
  have := length_le_flatMap_bytes fs hfs
  rw [List.length_append]
  omega
/-- What `readFrame` accepts: it takes bytes off the front, and a reliable frame names
a channel the receiver has. -/
theorem readFrame_some {n : Nat} {bytes rest : Bytes} {f : Frame}
    (h : readFrame n bytes = some (f, rest)) :
    rest.length < bytes.length ∧ ∀ ch seq data, f = .reliableData ch seq data → ch < n := by
  cases bytes with
  | nil => simp [readFrame] at h
  | cons frameType tail =>
    simp only [readFrame] at h
    split at h
    · split at h
      · simp at h
      · rename_i hlen _
        rw [Option.some.injEq, Prod.mk.injEq] at h
        rw [← h.1, ← h.2]
        refine ⟨?_, fun ch seq data hc => Frame.noConfusion hc⟩
        simp only [List.length_drop, List.length_cons]
        omega
    split at h
    · split at h
      · simp at h
      · rename_i hlen hch
        rw [Option.some.injEq, Prod.mk.injEq] at h
        rw [← h.1, ← h.2]
        refine ⟨?_, fun ch seq data hc => ?_⟩
        · simp only [List.length_drop, List.length_cons]
          omega
        · rw [Frame.reliableData.injEq] at hc
          omega
    split at h
    · split at h
      · simp at h
      · rw [Option.some.injEq, Prod.mk.injEq] at h
        rw [← h.1, ← h.2]
        exact ⟨by simp, fun ch seq data hc => Frame.noConfusion hc⟩
    split at h
    · rw [Option.some.injEq, Prod.mk.injEq] at h
      rw [← h.1, ← h.2]
      exact ⟨by simp, fun ch seq data hc => Frame.noConfusion hc⟩
    · simp at h

/-- The walk ends for a reason of the code's: more fuel than bytes changes nothing. -/
theorem readFrames_fuel_enough {n : Nat} : ∀ (fuel fuel' : Nat) (bytes : Bytes),
    bytes.length ≤ fuel → bytes.length ≤ fuel' →
      readFrames n fuel bytes = readFrames n fuel' bytes := by
  intro fuel
  induction fuel with
  | zero =>
    intro fuel' bytes h _
    have hnil : bytes = [] := List.length_eq_zero_iff.mp (Nat.le_zero.mp h)
    subst hnil
    cases fuel' with
    | zero => rfl
    | succ fuel' => rfl
  | succ fuel ih =>
    intro fuel' bytes h h'
    cases fuel' with
    | zero =>
      have hnil : bytes = [] := List.length_eq_zero_iff.mp (Nat.le_zero.mp h')
      subst hnil
      rfl
    | succ fuel' =>
      simp only [readFrames]
      cases hread : readFrame n bytes with
      | none => rfl
      | some res =>
        obtain ⟨f, rest⟩ := res
        have hlt := (readFrame_some hread).1
        simp only [ih fuel' rest (by omega) (by omega)]

theorem readFrames_channel {n : Nat} : ∀ (fuel : Nat) (bytes : Bytes) {ch seq : Nat} {data : Bytes},
    .reliableData ch seq data ∈ readFrames n fuel bytes → ch < n := by
  intro fuel
  induction fuel with
  | zero => intro bytes ch seq data h; exact absurd h List.not_mem_nil
  | succ fuel ih =>
    intro bytes ch seq data h
    simp only [readFrames] at h
    cases hread : readFrame n bytes with
    | none =>
      rw [hread] at h
      exact absurd h List.not_mem_nil
    | some res =>
      obtain ⟨f, rest⟩ := res
      rw [hread] at h
      rcases List.mem_cons.mp h with hf | hrest
      · exact (readFrame_some hread).2 ch seq data hf.symm
      · exact ih rest hrest

/-! ### Frames and the sending side -/

theorem deliver_sameSchedule (c : Connection Key) (msgs : List DeliveredMessage) :
    SameSchedule c (msgs.foldl Connection.deliver c) := by
  induction msgs generalizing c with
  | nil => exact SameSchedule.refl c
  | cons msg rest ih =>
    have hmsg : SameSchedule c (c.deliver msg) := ⟨rfl, rfl, rfl⟩
    exact hmsg.trans (ih (c.deliver msg))

theorem onReliableData_sameSchedule (c : Connection Key) (ch msgSeq : Nat) (data : Bytes) :
    SameSchedule c (c.onReliableData ch msgSeq data).2 := by
  simp only [Connection.onReliableData]
  split
  · split
    · exact ⟨rfl, rfl, rfl⟩
    · exact ⟨rfl, rfl, rfl⟩
  · split
    · exact SameSchedule.refl c
    · exact ⟨rfl, rfl, rfl⟩
  · exact SameSchedule.refl c

theorem onFrame_sameSchedule (now : Time) (c : Connection Key) (frame : Frame) :
    SameSchedule c (c.onFrame now frame).2 := by
  cases frame with
  | unreliableData ch data => exact SameSchedule.refl c
  | reliableData ch msgSeq data => exact onReliableData_sameSchedule c ch msgSeq data
  | fragmentData ch msgId fragIdx fragCnt data =>
    simp only [Connection.onFrame]
    split
    · exact ⟨rfl, rfl, rfl⟩
    · split
      · exact ⟨rfl, rfl, rfl⟩
      · exact ⟨rfl, rfl, rfl⟩
  | disconnect reason => exact SameSchedule.refl c

theorem countFrame_books (c : Connection Key) (released : Nat) (frame : Frame) :
    c.countFrame released frame = { c with books := (c.countFrame released frame).books } := by
  cases frame <;> rfl

theorem countFrame_cdata (c : Connection Key) (released : Nat) (frame : Frame) :
    (c.countFrame released frame).cdata = c.cdata := by
  rw [countFrame_books]

theorem applyFrame_sameSchedule (now : Time) (c : Connection Key) (frame : Frame) :
    SameSchedule c (c.applyFrame now frame) := by
  refine (onFrame_sameSchedule now c frame).trans (SameSchedule.trans ?_ (deliver_sameSchedule _ _))
  rw [countFrame_books]
  exact ⟨rfl, rfl, rfl⟩

theorem applyFrames_sameSchedule (now : Time) (c : Connection Key) (frames : List Frame) :
    SameSchedule c (c.applyFrames now frames).1 := by
  induction frames generalizing c with
  | nil => exact SameSchedule.refl c
  | cons frame rest ih =>
    have hframe := applyFrame_sameSchedule now c frame
    cases frame with
    | disconnect reason => exact SameSchedule.refl c
    | unreliableData ch data => exact hframe.trans (ih _)
    | reliableData ch msgSeq data => exact hframe.trans (ih _)
    | fragmentData ch msgId fragIdx fragCnt data => exact hframe.trans (ih _)

theorem foldl_deliver_cdata (msgs : List DeliveredMessage) : ∀ c : Connection Key,
    msgs.foldl Connection.deliver c =
      { c with cdata := (msgs.foldl Connection.deliver c).cdata } := by
  induction msgs with
  | nil => exact fun c => rfl
  | cons msg rest ih => exact fun c => ih (c.deliver msg)

/-- Before it is counted and its messages delivered, a frame changes the data only. -/
theorem onFrame_cdata (now : Time) (c : Connection Key) (frame : Frame) :
    (c.onFrame now frame).2 = { c with cdata := (c.onFrame now frame).2.cdata } := by
  cases frame with
  | unreliableData ch data => rfl
  | reliableData ch msgSeq data =>
    simp only [Connection.onFrame, Connection.onReliableData]
    split
    · split
      · rfl
      · rfl
    · split
      · rfl
      · rfl
    · rfl
  | fragmentData ch msgId fragIdx fragCnt data =>
    simp only [Connection.onFrame]
    split
    · rfl
    · split
      · rfl
      · rfl
  | disconnect reason => rfl

theorem applyFrame_eq_foldl (now : Time) (c : Connection Key) (frame : Frame) :
    c.applyFrame now frame = (c.onFrame now frame).1.foldl Connection.deliver
      ((c.onFrame now frame).2.countFrame (c.onFrame now frame).1.length frame) := rfl

/-- Frames act on the data of the connection and on its statistics, and on nothing
else. -/
theorem applyFrame_cdata (now : Time) (c : Connection Key) (frame : Frame) :
    c.applyFrame now frame =
      { c with
        cdata := (c.applyFrame now frame).cdata
        books := (c.applyFrame now frame).books } := by
  rw [applyFrame_eq_foldl, foldl_deliver_cdata, countFrame_books, onFrame_cdata]

theorem applyFrames_cdata (now : Time) (c : Connection Key) (frames : List Frame) :
    (c.applyFrames now frames).1 =
      { c with
        cdata := (c.applyFrames now frames).1.cdata
        books := (c.applyFrames now frames).1.books } := by
  induction frames generalizing c with
  | nil => rfl
  | cons frame rest ih =>
    have hframe := applyFrame_cdata now c frame
    have hrest : (Connection.applyFrames now (c.applyFrame now frame) rest).1 =
        { c with
          cdata := (Connection.applyFrames now (c.applyFrame now frame) rest).1.cdata
          books := (Connection.applyFrames now (c.applyFrame now frame) rest).1.books } := by
      rw [ih (c.applyFrame now frame), hframe]
    cases frame with
    | disconnect reason => rfl
    | unreliableData ch data => exact hrest
    | reliableData ch msgSeq data => exact hrest
    | fragmentData ch msgId fragIdx fragCnt data => exact hrest

/-- Opening a packet touches neither the channels nor what they have received. -/
theorem serverOpenFrames_eq (C : Primitives Key Ct) (pid : Nat) (now : Time) (c : Connection Key)
    (packet : Packet Ct) :
    (serverOpenFrames C pid now c packet).1.cdata = c.cdata ∧
      (serverOpenFrames C pid now c packet).1.active = c.active ∧
      SameSchedule c (serverOpenFrames C pid now c packet).1 := by
  simp only [serverOpenFrames]
  split
  · exact ⟨rfl, rfl, SameSchedule.refl c⟩
  split
  · exact ⟨rfl, rfl, rfl, rfl, rfl⟩
  split
  · exact ⟨rfl, rfl, rfl, rfl, rfl⟩
  · exact ⟨rfl, rfl, rfl, rfl, rfl⟩

theorem serverOpenFrames_opened {C : Primitives Key Ct} {pid : Nat} {now : Time}
    {c : Connection Key} {packet : Packet Ct} {plaintext : Bytes} {e : KeyEpoch Key}
    (htag : 1 ≤ C.ctLen packet.ct)
    (hopen : serverOpenPacket C pid now c.keyEpoch packet = (some plaintext, e))
    (hlen : 8 ≤ plaintext.length) :
    (serverOpenFrames C pid now c packet).2 = payloadFrames c.numChannels plaintext ∧
      (serverOpenFrames C pid now c packet).1.keyEpoch = e := by
  simp only [serverOpenFrames, if_neg (Nat.not_lt.mpr htag), hopen, if_neg (Nat.not_lt.mpr hlen)]
  exact ⟨trivial, trivial⟩

theorem serverHandleDataPacket_eq (C : Primitives Key Ct) (pid : Nat) (now : Time)
    (c : Connection Key) (packet : Packet Ct) :
    serverHandleDataPacket C pid now c packet =
      (serverOpenFrames C pid now c packet).1.applyFrames now
        (serverOpenFrames C pid now c packet).2 := rfl

/-- **Receiving leaves the sending side alone.** -/
theorem handleDataPacket_sameSchedule (C : Primitives Key Ct) (pid : Nat) (now : Time)
    (c : Connection Key) (packet : Packet Ct) :
    SameSchedule c (serverHandleDataPacket C pid now c packet).1 :=
  (serverOpenFrames_eq C pid now c packet).2.2.trans (applyFrames_sameSchedule now _ _)

/-! ### Handing over -/

/-- The message of a handover. -/
def Handover.msg : Handover → DeliveredMessage
  | .handled msg => msg
  | .returned msg => msg

/-- The caller has got the message. -/
def Handover.isReturned : Handover → Bool
  | .handled _ => false
  | .returned _ => true

/-- **Receiving takes messages off the front of the queue**, each handed over once, and
stops only at the end of the queue or when the caller has what it asked for. -/
theorem receiveLoop_spec (handlers : UInt8 → Bool) : ∀ (fuel room : Nat)
    (q : FixedRingBuffer 256 DeliveredMessage), q.size ≤ fuel →
    (∀ msg ∈ q.toList, msg.valid = true) →
    q.toList = (receiveLoop handlers fuel room q).1.map Handover.msg ++
        (receiveLoop handlers fuel room q).2.toList ∧
      ((receiveLoop handlers fuel room q).2.toList = [] ∨
        ((receiveLoop handlers fuel room q).1.filter Handover.isReturned).length = room) := by
  intro fuel
  induction fuel with
  | zero =>
    intro room q hfuel hvalid
    have hnil : q.toList = [] := FixedRingBuffer.toList_eq_nil_iff.mpr (Nat.le_zero.mp hfuel)
    exact ⟨rfl, Or.inl hnil⟩
  | succ fuel ih =>
    intro room q hfuel hvalid
    cases room with
    | zero => exact ⟨rfl, Or.inr rfl⟩
    | succ room =>
      cases hq : q.toList with
      | nil =>
        have hpop := FixedRingBuffer.popFront_of_nil hq
        simp only [receiveLoop, hpop, List.map_nil, List.nil_append]
        exact ⟨hq.symm, Or.inl hq⟩
      | cons msg rest =>
        obtain ⟨hmsg, hrest⟩ := FixedRingBuffer.popFront_of_cons hq
        cases hpop : q.popFront with
        | mk res q' =>
          rw [hpop] at hmsg hrest
          simp only at hmsg hrest
          subst hmsg
          have hsize : q'.size ≤ fuel := by
            have hlen := congrArg List.length hq
            rw [FixedRingBuffer.length_toList, List.length_cons, ← hrest,
              FixedRingBuffer.length_toList] at hlen
            omega
          have hv : msg.valid = true := hvalid msg (by rw [hq]; exact List.mem_cons_self)
          have hvrest : ∀ x ∈ q'.toList, x.valid = true := by
            intro x hx
            apply hvalid x
            rw [hq, ← hrest]
            exact List.mem_cons_of_mem msg hx
          simp only [receiveLoop, hpop, hv, Bool.not_true, Bool.false_eq_true, if_false]
          by_cases hhandler : hasHandler handlers msg = true
          · obtain ⟨hlist, hend⟩ := ih (room + 1) q' hsize hvrest
            simp only [if_pos hhandler, List.map_cons, List.cons_append]
            refine ⟨?_, hend⟩
            rw [← hlist, hrest]
            rfl
          · obtain ⟨hlist, hend⟩ := ih room q' hsize hvrest
            simp only [if_neg hhandler, List.map_cons, List.cons_append]
            refine ⟨?_, hend.imp_right fun hlen => ?_⟩
            · rw [← hlist, hrest]
              rfl
            · rw [List.filter_cons_of_pos rfl, List.length_cons, hlen]

/-- Where no handler is registered, the caller gets every message. -/
theorem receiveLoop_returned {handlers : UInt8 → Bool} (hnone : ∀ ptype, handlers ptype = false) :
    ∀ (fuel room : Nat) (q : FixedRingBuffer 256 DeliveredMessage),
      ∀ given ∈ (receiveLoop handlers fuel room q).1, given = .returned given.msg := by
  have hhandler : ∀ msg, hasHandler handlers msg = false := by
    intro msg
    unfold hasHandler
    split
    · rfl
    · exact hnone _
  intro fuel
  induction fuel with
  | zero => exact fun room q given hgiven => absurd hgiven List.not_mem_nil
  | succ fuel ih =>
    intro room q given hgiven
    cases room with
    | zero => exact absurd hgiven List.not_mem_nil
    | succ room =>
      simp only [receiveLoop, hhandler, Bool.false_eq_true, if_false] at hgiven
      split at hgiven
      · exact absurd hgiven List.not_mem_nil
      · split at hgiven
        · exact ih _ _ given hgiven
        · rcases List.mem_cons.mp hgiven with rfl | hrest
          · rfl
          · exact ih _ _ given hrest

theorem receiveLoop_all {handlers : UInt8 → Bool} (hnone : ∀ ptype, handlers ptype = false)
    {q : FixedRingBuffer 256 DeliveredMessage} (hvalid : ∀ msg ∈ q.toList, msg.valid = true)
    {room : Nat} (hroom : q.size ≤ room) :
    (receiveLoop handlers q.size room q).1 = q.toList.map .returned ∧
      (receiveLoop handlers q.size room q).2.toList = [] := by
  obtain ⟨hlist, hend⟩ := receiveLoop_spec handlers q.size room q (Nat.le_refl _) hvalid
  have hreturned := receiveLoop_returned hnone q.size room q
  cases hloop : receiveLoop handlers q.size room q with
  | mk out rest =>
    simp only [hloop] at hlist hend hreturned
    have hall : out.filter Handover.isReturned = out := by
      refine List.filter_eq_self.mpr fun given hgiven => ?_
      rw [hreturned given hgiven]
      rfl
    have hlen := congrArg List.length hlist
    rw [FixedRingBuffer.length_toList, List.length_append, List.length_map] at hlen
    have hnil : rest.toList = [] := by
      rcases hend with hnil | hcount
      · exact hnil
      · rw [hall] at hcount
        exact List.length_eq_zero_iff.mp (by omega)
    have hsame : out.map (.returned ∘ Handover.msg) = out.map id :=
      List.map_congr_left fun given hgiven => (hreturned given hgiven).symm
    refine ⟨?_, hnil⟩
    rw [hlist, hnil, List.append_nil, List.map_map, hsame, List.map_id]

end Netudp
