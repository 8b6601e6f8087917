import VideoTransport.Bytes
/-!
# Time — wall clock and delays on the wire

Reports carry a wall-clock time as seconds since 1900 and a binary fraction of a second, and repeat its middle bits
in units of 1/65536 s.  Delays are counted in the same units.
-/
namespace VideoTransport
namespace Rtcp

/-- Nanoseconds in a second. -/
def nanosPerSecond : Nat := 1000000000

/-- Seconds from the start of 1900 to the start of 1970. -/
def epochOffset : Nat := 2208988800

/-- A wall-clock time: seconds since 1900, modulo 2^32, and a fraction in units of 2^-32 s. -/
structure WallTime where
  seconds : UInt32
  fraction : UInt32
  deriving DecidableEq, Repr

namespace WallTime

/-- The time so many nanoseconds after the start of 1970; earlier times count as that start. -/
def ofUnixNanos (nanos : Int) : WallTime :=
  let n := nanos.toNat
  { seconds := UInt32.ofNat (n / nanosPerSecond + epochOffset)
    fraction := UInt32.ofNat (n % nanosPerSecond * UInt32.size / nanosPerSecond) }

/-- The middle thirty-two bits: sixteen of the seconds and sixteen of the fraction. -/
def compact (t : WallTime) : UInt32 :=
  UInt32.ofNat (t.seconds.toNat % 65536 * 65536 + t.fraction.toNat / 65536)

end WallTime

/-- A delay in units of 1/65536 s, cut off at the greatest value a word holds. -/
def compactDelay (nanos : Nat) : UInt32 :=
  UInt32.ofNat (min (nanos * 65536 / nanosPerSecond) (UInt32.size - 1))

/-- The units between a report and its echo, less the time the echo was held back; never below zero. -/
def roundTripUnits (now lastReport delay : UInt32) : UInt32 :=
  let elapsed := now - lastReport
  if elapsed < delay then 0 else elapsed - delay

/-- The round-trip time in milliseconds, unless no report has been echoed. -/
def roundTrip (now lastReport delay : UInt32) : Option Float :=
  if lastReport = 0 || delay = 0 then none
  else some ((roundTripUnits now lastReport delay).toFloat * 1000.0 / 65536.0)

end Rtcp
end VideoTransport
