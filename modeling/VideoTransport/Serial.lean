/-!
# Serial — sixteen-bit serial numbers

Packets are numbered modulo 2^16, so "later" is a matter of distance: a number is ahead of another when the way
forward to it is shorter than half of the circle.
-/
namespace VideoTransport

/-- A packet's sequence number; arithmetic on it wraps. -/
abbrev Serial := UInt16

namespace Serial

/-- Half of the circle of serial numbers. -/
def half : UInt16 := 0x8000

/-- How far forward from `origin` the number `s` lies. -/
def distance (origin s : Serial) : UInt16 := s - origin

/-- Whether `s` is `origin` itself or ahead of it. -/
def atOrAhead (origin s : Serial) : Bool := distance origin s < half

/-- The numbers that `n` packets take when the first of them takes `start`. -/
def run (start : Serial) : Nat → List Serial
  | 0 => []
  | n + 1 => start :: run (start + 1) n

end Serial

/-- A counter that hands out serial numbers one by one. -/
structure SerialCounter where
  /-- The number to be handed out next. -/
  upcoming : Serial := 0

namespace SerialCounter

/-- Hand out the upcoming number. -/
def next (c : SerialCounter) : Serial × SerialCounter := (c.upcoming, ⟨c.upcoming + 1⟩)

/-- Look at the upcoming number without handing it out. -/
def peek (c : SerialCounter) : Serial := c.upcoming

end SerialCounter
end VideoTransport
