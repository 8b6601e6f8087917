import VideoTransport.Decimal.Fixed
import VideoTransport.Decimal.Shortest
import VideoTransport.Json.Record
/-!
# Counters — totals of a stream

Totals count modulo 2^64.  Jitter and round-trip time are kept as the bits of doubles; the pattern of all ones stands
for no round-trip time.
-/
namespace VideoTransport

structure Counters where
  packetsSent : UInt64 := 0
  bytesSent : UInt64 := 0
  packetsReceived : UInt64 := 0
  bytesReceived : UInt64 := 0
  packetsLost : UInt64 := 0
  /-- The bits of the jitter in media units. -/
  jitter : UInt64 := 0
  /-- The bits of the round-trip time in milliseconds, if there is an estimate. -/
  roundTrip : Option UInt64 := none
  unitsSent : UInt64 := 0
  unitsReceived : UInt64 := 0
  framesDropped : UInt64 := 0
  malformedPackets : UInt64 := 0
  deriving DecidableEq, Repr

namespace Counters

/-! ## Counting -/

def recordSent (c : Counters) (octets : Nat) : Counters :=
  { c with packetsSent := c.packetsSent + 1, bytesSent := c.bytesSent + UInt64.ofNat octets }

def recordReceived (c : Counters) (octets : Nat) : Counters :=
  { c with packetsReceived := c.packetsReceived + 1, bytesReceived := c.bytesReceived + UInt64.ofNat octets }

def recordUnitSent (c : Counters) : Counters := { c with unitsSent := c.unitsSent + 1 }

def recordUnitReceived (c : Counters) : Counters := { c with unitsReceived := c.unitsReceived + 1 }

def recordMalformed (c : Counters) (count : UInt64) : Counters :=
  { c with malformedPackets := c.malformedPackets + count }

def setFramesDropped (c : Counters) (count : UInt64) : Counters := { c with framesDropped := count }

/-- A negative loss, which comes from packets received more than once, counts as none. -/
def setReception (c : Counters) (lost : Int) (jitter : UInt64) : Counters :=
  { c with packetsLost := UInt64.ofNat lost.toNat, jitter }

/-- The bits that stand for no round-trip time. -/
def noRoundTrip : UInt64 := 0xffffffffffffffff

def setRoundTrip (c : Counters) (bits : UInt64) : Counters :=
  { c with roundTrip := if bits = noRoundTrip then none else some bits }

/-- Forget everything. -/
def reset (_ : Counters) : Counters := {}

/-! ## Texts -/

/-- The summary in one line: jitter with two decimals and the round-trip time with one. -/
def summary (c : Counters) : String :=
  "sent=" ++ toString c.packetsSent.toNat ++ "(" ++ toString c.bytesSent.toNat ++ "B) recv=" ++
    toString c.packetsReceived.toNat ++ "(" ++ toString c.bytesReceived.toNat ++ "B) lost=" ++
    toString c.packetsLost.toNat ++ " jitter=" ++ Decimal.fixed 2 c.jitter ++ " rtt=" ++
    (match c.roundTrip with
      | none => "-"
      | some bits => Decimal.fixed 1 bits) ++ "ms"

/-- A double in JSON; what is not finite becomes `null`. -/
def writeFinite (bits : UInt64) : List Char :=
  match Decimal.Reading.ofBits bits with
  | .finite _ _ => (Json.floatStyle.render bits).toList
  | _ => ['n', 'u', 'l', 'l']

/-- The totals as a JSON object. -/
def toJson (c : Counters) : String :=
  let count (name : String) (n : UInt64) := Json.writeMember name (Json.writeNat n.toNat)
  String.ofList (Json.writeObject
    [count "packets_sent" c.packetsSent,
     count "bytes_sent" c.bytesSent,
     count "packets_received" c.packetsReceived,
     count "bytes_received" c.bytesReceived,
     count "packets_lost" c.packetsLost,
     Json.writeMember "jitter" (writeFinite c.jitter),
     Json.writeMember "rtt_estimate_ms" (match c.roundTrip with
       | none => ['n', 'u', 'l', 'l']
       | some bits => writeFinite bits),
     count "access_units_sent" c.unitsSent,
     count "access_units_received" c.unitsReceived,
     count "frames_dropped" c.framesDropped,
     count "malformed_packets" c.malformedPackets])

/-- Diagnostics write an exponent from 10^16 on or below 10^-4, and of two equally near decimals the one farther from
zero. -/
def diagnosticStyle : Decimal.Style :=
  { leastPositional := -4, greatestPositional := 15, plus := "", tie := .away, nan := "NaN", infinity := "inf" }

/-- The totals as diagnostics show them. -/
def describe (c : Counters) : String :=
  let count (name : String) (n : UInt64) := name ++ ": " ++ toString n.toNat
  "VideoStreamStats \x7b " ++ String.intercalate ", "
    [count "packets_sent" c.packetsSent,
     count "bytes_sent" c.bytesSent,
     count "packets_received" c.packetsReceived,
     count "bytes_received" c.bytesReceived,
     count "packets_lost" c.packetsLost,
     "jitter: " ++ diagnosticStyle.render c.jitter,
     "rtt_estimate_ms: " ++ (match c.roundTrip with
       | none => "None"
       | some bits => "Some(" ++ diagnosticStyle.render bits ++ ")"),
     count "access_units_sent" c.unitsSent,
     count "access_units_received" c.unitsReceived,
     count "frames_dropped" c.framesDropped,
     count "malformed_packets" c.malformedPackets] ++ " \x7d"

end Counters
end VideoTransport
