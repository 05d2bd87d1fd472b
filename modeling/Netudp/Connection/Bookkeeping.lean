/-
What a connection keeps about itself.

The round-trip estimate (`src/reliability/rtt.h`), the token bucket and the congestion
control (`src/bandwidth/bandwidth.h`), the statistics (`src/stats/stats.h`), and the
fields of `struct Connection` that sending and receiving messages does not depend on.

Floats are rationals, without their rounding; the factors 0.05, 0.75 and so on are the
decimal fractions.
-/
import Netudp.Crypto.PacketCrypto

namespace Netudp

/-! ### Round-trip times -/

/-- `class RttEstimator`. -/
structure RttEstimator where
  srtt : Time := 0
  rttvar : Time := 0
  rto : Time := 1
  hasSample : Bool := false
deriving DecidableEq

namespace RttEstimator

/-- `rto_` within `MIN_RTO` and `MAX_RTO`. -/
def clampRto (rto : Time) : Time := if rto < 1 / 10 then 1 / 10 else if 2 < rto then 2 else rto

/-- `on_sample`. -/
def onSample (r : RttEstimator) (sendTime now : Time) (ackDelayUs : Nat) : RttEstimator :=
  let measured := (now - sendTime) - ackDelayUs / 1000000
  let sample := if measured < 0 then 1 / 1000 else measured
  let off := r.srtt - sample
  let r :=
    if r.hasSample then
      { r with
        rttvar := (1 - 1 / 4) * r.rttvar + 1 / 4 * (if off < 0 then -off else off)
        srtt := (1 - 1 / 8) * r.srtt + 1 / 8 * sample }
    else { r with srtt := sample, rttvar := sample / 2, hasSample := true }
  { r with rto := clampRto (r.srtt + 4 * r.rttvar) }

/-- `ping_ms`. -/
def pingMs (r : RttEstimator) : Nat := (r.srtt * 1000).floor.toNat % u32Size

end RttEstimator

/-! ### Bandwidth -/

/-- `rate_bytes_per_sec`, which nothing assigns. -/
def rateBytesPerSec : Nat := 256 * 1024

/-- `burst_bytes`, which nothing assigns. -/
def burstBytes : Nat := 32 * 1024

/-- `struct BandwidthBucket`. -/
structure BandwidthBucket where
  tokens : ℚ := 0
  lastRefillTime : Time := 0
deriving DecidableEq

namespace BandwidthBucket

/-- `init`. -/
def init (time : Time) : BandwidthBucket where
  tokens := burstBytes
  lastRefillTime := time

/-- `refill`. -/
def refill (b : BandwidthBucket) (now : Time) : BandwidthBucket :=
  let elapsed := now - b.lastRefillTime
  if 0 < elapsed then
    { tokens := min (b.tokens + rateBytesPerSec * elapsed) burstBytes, lastRefillTime := now }
  else b

end BandwidthBucket

/-- `DEFAULT_MAX_RATE`. -/
def defaultMaxRate : Nat := 256 * 1024

/-- `MIN_SEND_RATE`. -/
def minSendRate : Nat := 32 * 1024

/-- `WINDOW_SIZE`. -/
def congestionWindow : Nat := 64

/-- `class CongestionControl`. -/
structure CongestionControl where
  sendRate : Nat := defaultMaxRate
  maxSendRate : Nat := defaultMaxRate
  totalPackets : Nat := 0
  lostPackets : Nat := 0
  rttSamples : Nat := 0
deriving DecidableEq

namespace CongestionControl

/-- `init`, which ignores what was there. -/
def init (maxRate : Nat) : CongestionControl where
  sendRate := maxRate
  maxSendRate := maxRate

/-- `reset`. -/
def reset (c : CongestionControl) : CongestionControl :=
  { sendRate := c.maxSendRate, maxSendRate := c.maxSendRate }

/-- `on_packet_acked`. -/
def onPacketAcked (c : CongestionControl) : CongestionControl :=
  if congestionWindow < c.totalPackets + 1 then
    { c with totalPackets := congestionWindow, lostPackets := c.lostPackets - 1 }
  else { c with totalPackets := c.totalPackets + 1 }

/-- `on_packet_lost`. -/
def onPacketLost (c : CongestionControl) : CongestionControl :=
  if congestionWindow < c.totalPackets + 1 then
    { c with totalPackets := congestionWindow, lostPackets := c.lostPackets + 1 }
  else { c with totalPackets := c.totalPackets + 1, lostPackets := c.lostPackets + 1 }

/-- `on_rtt_sample`. -/
def onRttSample (c : CongestionControl) : CongestionControl :=
  { c with rttSamples := c.rttSamples + 1 }

/-- `evaluate`. -/
def evaluate (c : CongestionControl) : CongestionControl :=
  if c.totalPackets < 10 then c
  else
    let lossRate : ℚ := c.lostPackets / c.totalPackets
    if 1 / 20 < lossRate then
      { c with sendRate := max minSendRate (c.sendRate * 3 / 4) }
    else if lossRate < 1 / 100 ∧ 10 ≤ c.rttSamples then
      { c with sendRate := min c.maxSendRate (c.sendRate * 11 / 10) }
    else c

/-- `loss_rate`. -/
def lossRate (c : CongestionControl) : ℚ :=
  if c.totalPackets = 0 then 0 else c.lostPackets / c.totalPackets

end CongestionControl

/-! ### Statistics -/

/-- `struct ConnectionStats`. -/
structure ConnectionStats where
  pingMs : Nat := 0
  connectionQualityLocal : ℚ := 1
  connectionQualityRemote : ℚ := 1
  outPacketsPerSec : ℚ := 0
  outBytesPerSec : ℚ := 0
  inPacketsPerSec : ℚ := 0
  inBytesPerSec : ℚ := 0
  sendRateBytesPerSec : Nat := 0
  maxSendRateBytesPerSec : Nat := 0
  pendingUnreliableBytes : Nat := 0
  pendingReliableBytes : Nat := 0
  sentUnackedReliableBytes : Nat := 0
  queueTimeUs : Nat := 0
  packetsSent : Nat := 0
  packetsReceived : Nat := 0
  packetsLost : Nat := 0
  packetsOutOfOrder : Nat := 0
  messagesSent : Nat := 0
  messagesReceived : Nat := 0
  messagesDropped : Nat := 0
  windowStalls : Nat := 0
  fragmentsSent : Nat := 0
  fragmentsReceived : Nat := 0
  fragmentsRetransmitted : Nat := 0
  fragmentsTimedOut : Nat := 0
  framesCoalesced : Nat := 0
  compressionRatio : ℚ := 0
  compressionBytesSaved : Nat := 0
  replayAttacksBlocked : Nat := 0
  decryptFailures : Nat := 0
  outPacketsThisSec : Nat := 0
  outBytesThisSec : Nat := 0
  inPacketsThisSec : Nat := 0
  inBytesThisSec : Nat := 0
  lastThroughputTime : Time := 0
deriving DecidableEq

namespace ConnectionStats

/-- A 32-bit counter, counted up. -/
def count (counter by_ : Nat) : Nat := (counter + by_) % u32Size

/-- `on_packet_sent`. -/
def onPacketSent (s : ConnectionStats) (bytes : Nat) : ConnectionStats :=
  { s with
    packetsSent := count s.packetsSent 1
    outPacketsThisSec := count s.outPacketsThisSec 1
    outBytesThisSec := count s.outBytesThisSec bytes }

/-- `on_packet_received`. -/
def onPacketReceived (s : ConnectionStats) (bytes : Nat) : ConnectionStats :=
  { s with
    packetsReceived := count s.packetsReceived 1
    inPacketsThisSec := count s.inPacketsThisSec 1
    inBytesThisSec := count s.inBytesThisSec bytes }

/-- The moving average of `update_throughput`, with `alpha` one fifth. -/
def average (old : ℚ) (thisSec : Nat) : ℚ := (1 - 1 / 5) * old + 1 / 5 * thisSec

/-- `update_throughput`. -/
def updateThroughput (s : ConnectionStats) (now : Time) : ConnectionStats :=
  if 1 ≤ now - s.lastThroughputTime then
    { s with
      outPacketsPerSec := average s.outPacketsPerSec s.outPacketsThisSec
      outBytesPerSec := average s.outBytesPerSec s.outBytesThisSec
      inPacketsPerSec := average s.inPacketsPerSec s.inPacketsThisSec
      inBytesPerSec := average s.inBytesPerSec s.inBytesThisSec
      outPacketsThisSec := 0
      outBytesThisSec := 0
      inPacketsThisSec := 0
      inBytesThisSec := 0
      lastThroughputTime := now }
  else s

end ConnectionStats

/-! ### The fields of a connection -/

/-- The fields of `struct Connection` that no send and no receive depends on. -/
structure Bookkeeping where
  generation : Nat := 0
  userData : Vector UInt8 256 := .replicate 256 0
  rtt : RttEstimator := {}
  fragmentSendId : Nat := 0
  bandwidth : BandwidthBucket := {}
  congestion : CongestionControl := {}
  stats : ConnectionStats := {}
  connectTime : Time := 0
  nextSlowTick : Time := 0
  slotId : Nat := 0xFFFF
  lastPingTime : Time := 0
  lastPongTime : Time := 0
  timeoutLeft : Time := 30
  integrityTimeout : Time := 120
  lastIntegrityTime : Time := 0
  integrityCheckIndex : Nat := 0
  integrityPending : Bool := false
  cachedSa : Bytes := List.replicate 128 0
  cachedSaLen : Nat := 0
deriving DecidableEq

namespace Bookkeeping

/-- What `init_subsystems` does with them.  The next slow tick is not among it. -/
def initSubsystems (b : Bookkeeping) (time : Time) : Bookkeeping :=
  { b with
    rtt := {}
    bandwidth := .init time
    congestion := .init defaultMaxRate
    stats := { lastThroughputTime := time }
    connectTime := time }

/-- What `reset` does with them.  The token bucket and the next slow tick stay. -/
def reset (b : Bookkeeping) : Bookkeeping :=
  { b with
    generation := (b.generation + 1) % u32Size
    userData := .replicate 256 0
    rtt := {}
    congestion := b.congestion.reset
    lastPingTime := 0
    lastPongTime := 0
    timeoutLeft := 30
    integrityTimeout := 120
    lastIntegrityTime := 0
    integrityCheckIndex := 0
    integrityPending := false
    cachedSa := List.replicate 128 0
    cachedSaLen := 0
    slotId := 0xFFFF
    stats := {}
    connectTime := 0
    fragmentSendId := 0 }

/-- A packet of this many bytes and frames was sent. -/
def packetSent (b : Bookkeeping) (bytes frames : Nat) : Bookkeeping :=
  let stats := b.stats.onPacketSent bytes
  { b with stats := { stats with
      framesCoalesced := ConnectionStats.count stats.framesCoalesced frames } }

/-- A packet could not be decrypted. -/
def decryptFailed (b : Bookkeeping) : Bookkeeping :=
  { b with stats := { b.stats with
      decryptFailures := ConnectionStats.count b.stats.decryptFailures 1 } }

/-- A packet of this many bytes was decrypted. -/
def packetReceived (b : Bookkeeping) (bytes : Nat) : Bookkeeping :=
  { b with stats := b.stats.onPacketReceived bytes }

/-- An acknowledgement was processed: so many packets are newly acknowledged, and the one
it names was sent at `sendTime`. -/
def acknowledged (b : Bookkeeping) (newlyAcked : Nat) (sendTime now : Time) (ackDelayUs : Nat) :
    Bookkeeping :=
  let b := { b with congestion := CongestionControl.onPacketAcked^[newlyAcked] b.congestion }
  if 0 < sendTime then
    { b with
      rtt := b.rtt.onSample sendTime now ackDelayUs
      congestion := b.congestion.onRttSample }
  else b

/-- Messages were received. -/
def messagesReceived (b : Bookkeeping) (n : Nat) : Bookkeeping :=
  { b with stats := { b.stats with
      messagesReceived := ConnectionStats.count b.stats.messagesReceived n } }

/-- Fragments were received; the code counts one that completes a message twice. -/
def fragmentsReceived (b : Bookkeeping) (n : Nat) : Bookkeeping :=
  { b with stats := { b.stats with
      fragmentsReceived := ConnectionStats.count b.stats.fragmentsReceived n } }

/-- The slow tick of `netudp_server_update`, the fragments apart. -/
def slowTick (b : Bookkeeping) (time : Time) : Bookkeeping :=
  let stats := b.stats.updateThroughput time
  { b with
    nextSlowTick := time + 1 / 10
    stats := { stats with
      pingMs := b.rtt.pingMs
      sendRateBytesPerSec := b.congestion.sendRate
      maxSendRateBytesPerSec := b.congestion.maxSendRate }
    congestion := b.congestion.evaluate }

end Bookkeeping

end Netudp
