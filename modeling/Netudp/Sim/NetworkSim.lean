/-
The network simulator (`src/sim/network_sim.cpp`).

Packets are put in a ring of 512, each with the time it is due; some are lost, some are put
in twice and some are held back longer.  A poll hands out what is due and moves the rest to
the front of the ring.

Nothing about the queue depends on the arithmetic, so the `float` and `double` operations
are parameters, with whatever rounding, infinities and NaNs they have.  The bytes of a cell
lie in memory behind one another; those beyond the length of its packet are left over from
earlier ones.
-/
import Netudp.Connection.Connection
import Netudp.Lib.Memory

namespace Netudp

open Lib

/-- The operations of `float` (`F`) and `double` (`D`) that the simulator uses. -/
structure FloatOps (F D : Type) where
  ofNat : Nat → F
  add : F → F → F
  sub : F → F → F
  mul : F → F → F
  div : F → F → F
  lt : F → F → Bool
  /-- `static_cast<double>`. -/
  widen : F → D
  ofNatD : Nat → D
  addD : D → D → D
  divD : D → D → D
  leD : D → D → Bool

variable {F D : Type}

/-- `struct NetSimConfig`, without `incoming_lag_ms`, which nothing reads. -/
structure NetSimConfig (F : Type) where
  latencyMinMs : F
  latencyMaxMs : F
  jitterMs : F
  lossPercent : F
  duplicatePercent : F
  reorderPercent : F

/-- `struct SimPacket`. -/
structure SimPacket (D : Type) where
  data : Int → UInt8
  len : Nat
  from_ : Address
  deliverTime : D

/-- `struct NetworkSimulator`. -/
structure NetworkSimulator (F D : Type) where
  config : NetSimConfig F
  queue : Nat → SimPacket D
  head : Nat
  tail : Nat
  count : Nat
  rngState : UInt32

namespace NetworkSimulator

/-- `init`; the queue is whatever was in its memory. -/
def init (queue : Nat → SimPacket D) (cfg : NetSimConfig F) (seed : UInt32) :
    NetworkSimulator F D :=
  ⟨cfg, queue, 0, 0, 0, seed⟩

/-! ### Random numbers -/

/-- `rand_u32`. -/
def randU32 (s : NetworkSimulator F D) : UInt32 × NetworkSimulator F D :=
  let r := s.rngState
  let r := r ^^^ (r <<< 13)
  let r := r ^^^ (r >>> 17)
  let r := r ^^^ (r <<< 5)
  (r, { s with rngState := r })

/-- `rand_float`. -/
def randFloat (A : FloatOps F D) (s : NetworkSimulator F D) : F × NetworkSimulator F D :=
  let (r, s) := s.randU32
  (A.div (A.ofNat (r.toNat % 10000)) (A.ofNat 100), s)

/-! ### Submitting -/

/-- `insert`. -/
def insert (s : NetworkSimulator F D) (data : Bytes) (from_ : Address) (deliverTime : D) :
    NetworkSimulator F D :=
  if 512 ≤ s.count then s
  else
    let copyLen := if data.length < 1500 then data.length else 1500
    let cell := s.queue s.tail
    { s with
      queue := Function.update s.queue s.tail
        ⟨store cell.data 0 copyLen (data.getD · 0), copyLen, from_, deliverTime⟩
      tail := (s.tail + 1) % 512
      count := s.count + 1 }

/-- The `deliver_time` of a packet before it may be held back: `std::max` keeps its first
argument unless it is less than the second. -/
def deliverTime (A : FloatOps F D) (s : NetworkSimulator F D) (currentTime : D) :
    D × NetworkSimulator F D :=
  let range := A.sub s.config.latencyMaxMs s.config.latencyMinMs
  let (r, s) := s.randFloat A
  let delay := A.add s.config.latencyMinMs (A.mul (A.div r (A.ofNat 100)) range)
  let (r, s) := s.randFloat A
  let jitter := A.sub (A.mul (A.mul (A.div r (A.ofNat 100)) s.config.jitterMs) (A.ofNat 2))
    s.config.jitterMs
  let delay := A.add delay jitter
  let delay := if A.lt delay (A.ofNat 0) then A.ofNat 0 else delay
  (A.addD currentTime (A.divD (A.widen delay) (A.ofNatD 1000)), s)

/-- `submit`, for the bytes of one packet. -/
def submit (A : FloatOps F D) (s : NetworkSimulator F D) (data : Bytes) (from_ : Address)
    (currentTime : D) : Nat × NetworkSimulator F D :=
  let (r, s) := s.randFloat A
  if A.lt r s.config.lossPercent then (0, s)
  else
    let (due, s) := s.deliverTime A currentTime
    let (r, s) := s.randFloat A
    if A.lt r s.config.duplicatePercent then
      (2, (s.insert data from_ due).insert data from_ due)
    else
      let (r, s) := s.randFloat A
      if A.lt r s.config.reorderPercent then
        let (r, s) := s.randFloat A
        let extra := A.mul (A.div r (A.ofNat 100)) (A.ofNat 50)
        let due := A.addD due (A.divD (A.widen extra) (A.ofNatD 1000))
        (1, s.insert data from_ due)
      else (1, s.insert data from_ due)

/-! ### Polling -/

/-- The loop of `poll`, for the rounds that are left: the calls of the callback with the
bytes and the address of a packet, the queue, and `write`. -/
def pollLoop (A : FloatOps F D) (currentTime : D) (head : Nat) :
    Nat → Nat → Nat → (Nat → SimPacket D) → List (Bytes × Address) × (Nat → SimPacket D) × Nat
  | 0, _, write, queue => ([], queue, write)
  | rounds + 1, n, write, queue =>
    let idx := (head + n) % 512
    let p := queue idx
    if A.leD p.deliverTime currentTime then
      let (calls, queue, write) := pollLoop A currentTime head rounds (n + 1) write queue
      ((load p.data 0 p.len, p.from_) :: calls, queue, write)
    else
      pollLoop A currentTime head rounds (n + 1) (write + 1)
        (if write ≠ idx then Function.update queue write p else queue)

/-- `poll`. -/
def poll (A : FloatOps F D) (s : NetworkSimulator F D) (currentTime : D) :
    List (Bytes × Address) × NetworkSimulator F D :=
  let (calls, queue, write) := pollLoop A currentTime s.head s.count 0 0 s.queue
  (calls, { s with queue := queue, head := 0, tail := write % 512, count := write })

end NetworkSimulator

end Netudp
