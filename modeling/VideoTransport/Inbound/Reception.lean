import VideoTransport.Rtcp.Report
import VideoTransport.Serial
/-!
# Reception — what has arrived of a source

The source is that of the first packet.  The highest number seen is extended by the count of turns of the circle; a
turn is counted when a number below `wrapLow` follows a highest one above `wrapHigh`.  From it follows how many
packets were to be expected.  Jitter is the running average of how unevenly packets arrive.
-/
namespace VideoTransport

structure Reception where
  wrapHigh : UInt16 := 60000
  wrapLow : UInt16 := 5000
  source : Option UInt32 := none
  base : Serial := 0
  /-- The highest number, within its turn. -/
  highest : Serial := 0
  /-- Turns of the circle. -/
  cycles : UInt32 := 0
  received : UInt64 := 0
  /-- What was expected when the last block was made. -/
  expectedBefore : UInt64 := 0
  /-- What had been received then. -/
  receivedBefore : UInt64 := 0
  jitter : Float := 0.0
  /-- Arrival less media time of the last packet, in media units. -/
  lastTransit : Option Int := none
  /-- The compact time of the last sender report, and when it arrived, in nanoseconds. -/
  lastReport : Option (UInt32 × Nat) := none

namespace Reception

/-- Move the highest number up to a later one; a fall that is no turn of the circle is ignored. -/
def advance (r : Reception) (s : Serial) : Reception :=
  let ahead := Serial.distance r.highest s
  if ahead ≠ 0 ∧ ahead < Serial.half then
    if r.highest < s then { r with highest := s }
    else if r.wrapHigh < r.highest ∧ s < r.wrapLow then { r with cycles := r.cycles + 1, highest := s }
    else r
  else r

/-- Arrival less media time as a signed number of thirty-two bits. -/
def transit (mediaTime arrival : UInt32) : Int := (arrival - mediaTime).toInt32.toInt

/-- Draw an average a sixteenth of the way to a new value. -/
def smooth (average value : Float) : Float := average + (value - average) / 16.0

/-- Take the transit time of a packet into the jitter. -/
def takeTransit (r : Reception) (transit : Int) : Reception :=
  let jitter := match r.lastTransit with
    | none => r.jitter
    | some last => smooth r.jitter (transit - last).natAbs.toFloat
  { r with jitter, lastTransit := some transit }

/-- Count one packet; `arrival` is in the units of the media time. -/
def record (r : Reception) (ssrc : UInt32) (s : Serial) (mediaTime arrival : UInt32) : Reception :=
  let r := match r.source with
    | none => { r with source := some ssrc, base := s, highest := s }
    | some _ => r.advance s
  { r with received := r.received + 1 }.takeTransit (transit mediaTime arrival)

/-- Remember a sender report that arrived at `now`. -/
def recordReport (r : Reception) (report : Rtcp.SenderReport) (now : Nat) : Reception :=
  { r with lastReport := some (report.time.compact, now) }

def hasReport (r : Reception) : Bool := r.lastReport.isSome

/-! ## What follows -/

/-- Turns and highest number in one word. -/
def extendedHighest (r : Reception) : UInt32 := (r.cycles <<< 16) ||| r.highest.toUInt32

/-- How many packets the source has sent as far as numbers tell. -/
def expected (r : Reception) : UInt64 :=
  match r.source with
  | none => 0
  | some _ => r.extendedHighest.toUInt64 + 1 - r.base.toUInt64

/-- Expected less received; below zero when packets came more than once. -/
def cumulativeLost (r : Reception) : Int := (r.expected - r.received).toInt64.toInt

/-- What remains of `a` after `b` has been taken away, at least zero. -/
def saturatingSub (a b : UInt64) : UInt64 := if a < b then 0 else a - b

/-- The share lost, in 256ths, of an interval; nothing is lost when as much came as was expected. -/
def fractionLost (expected received : UInt64) : UInt8 :=
  let lost := (expected - received).toInt64.toInt
  if expected = 0 ∨ lost ≤ 0 then 0 else UInt8.ofNat (min (lost.toNat * 256 / expected.toNat) 255)

/-- A block about everything so far, and the start of a new interval. -/
def reportBlock (r : Reception) (now : Nat) : Rtcp.ReportBlock × Reception :=
  let expected := r.expected
  let (lastReport, delay) := match r.lastReport with
    | none => (0, 0)
    | some (compact, arrived) => (compact, Rtcp.compactDelay (now - arrived))
  ({ ssrc := r.source.getD 0
     fractionLost := fractionLost (saturatingSub expected r.expectedBefore) (saturatingSub r.received r.receivedBefore)
     cumulativeLost := Rtcp.clampLost r.cumulativeLost
     extendedHighest := r.extendedHighest
     jitter := r.jitter.toUInt32
     lastReport
     delay },
    { r with expectedBefore := expected, receivedBefore := r.received })

end Reception
end VideoTransport
