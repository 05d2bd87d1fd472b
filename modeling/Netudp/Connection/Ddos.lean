/-
The flood monitor (`src/connection/ddos.h`).

Packets that are refused or make no sense are counted.  Once the calls of `update` add up
to a second the count is evaluated: the severity rises at once to the level of the count,
and falls by one level after a number of quiet evaluations.

The count is an `int`, and wraps as one.  `reset`, which nothing calls, is left out.
-/
import Netudp.Core.Buffer
import Netudp.Crypto.PacketCrypto

namespace Netudp

/-- `enum class DDoSSeverity`. -/
inductive DdosSeverity where
  | none
  | low
  | medium
  | high
  | critical
deriving DecidableEq, Repr

namespace DdosSeverity

/-- The value of the enumeration. -/
def toNat : DdosSeverity → Nat
  | none => 0
  | low => 1
  | medium => 2
  | high => 3
  | critical => 4

instance : LT DdosSeverity := ⟨fun a b => a.toNat < b.toNat⟩

instance (a b : DdosSeverity) : Decidable (a < b) := Nat.decLt a.toNat b.toNat

/-- `static_cast<DDoSSeverity>(static_cast<uint8_t>(severity) - 1)`, of a level above
`None`. -/
def lower : DdosSeverity → DdosSeverity
  | none => none
  | low => none
  | medium => low
  | high => medium
  | critical => high

end DdosSeverity

/-- `class DDoSMonitor`. -/
structure DdosMonitor where
  severity : DdosSeverity := .none
  badPacketsThisWindow : Int := 0
  badPacketsPerSec : Int := 0
  cooloffTimer : Time := 0
  timeSinceLastEval : Time := 0
deriving DecidableEq

namespace DdosMonitor

/-- `on_bad_packet`. -/
def onBadPacket (m : DdosMonitor) : DdosMonitor :=
  { m with badPacketsThisWindow := wrap32 (m.badPacketsThisWindow + 1) }

/-- The `new_severity` of `update`: the level of `bps` bad packets, or the present one if
they are too few for any. -/
def newSeverity (severity : DdosSeverity) (bps : Int) : DdosSeverity :=
  if 10000 < bps then .critical
  else if 2000 < bps then .high
  else if 500 < bps then .medium
  else if 100 < bps then .low
  else severity

/-- The `cooloff_threshold` of `update`. -/
def cooloffThreshold (severity : DdosSeverity) : Nat :=
  if severity = .critical then 60 else 30

/-- The evaluation in `update`. -/
def evaluate (m : DdosMonitor) : DdosMonitor :=
  let bps := m.badPacketsThisWindow
  let m := { m with badPacketsPerSec := bps, badPacketsThisWindow := 0, timeSinceLastEval := 0 }
  if m.severity < newSeverity m.severity bps then
    { m with severity := newSeverity m.severity bps, cooloffTimer := 0 }
  else if bps ≤ 100 then
    let m' := { m with cooloffTimer := m.cooloffTimer + 1 }
    if (cooloffThreshold m.severity : Time) ≤ m'.cooloffTimer then
      if m.severity ≠ .none then { m' with severity := m.severity.lower, cooloffTimer := 0 }
      else m'
    else m'
  else { m with cooloffTimer := 0 }

/-- The call of `update` makes an evaluation. -/
def evaluates (m : DdosMonitor) (dt : Time) : Bool := 1 ≤ m.timeSinceLastEval + dt

/-- `update`. -/
def update (m : DdosMonitor) (dt : Time) : DdosMonitor :=
  let m' := { m with timeSinceLastEval := m.timeSinceLastEval + dt }
  if m.evaluates dt then m'.evaluate else m'

/-- `should_process_new_connection`. -/
def shouldProcessNewConnection (m : DdosMonitor) : Bool := m.severity < .critical

/-- `should_process_packet`, which nothing calls. -/
def shouldProcessPacket (m : DdosMonitor) (isEstablished : Bool) : Bool :=
  if ¬m.severity < .high ∧ isEstablished = false then false else true

end DdosMonitor

end Netudp
