import VideoTransport.Fault
import VideoTransport.Loopback.Chance
import VideoTransport.Outbound.Sender
/-!
# Link — a way on which datagrams get lost and overtaken

A datagram is lost, or held back until the next one has passed, or passes at once.  What passes waits in a queue until
the other end takes it.  A link over sockets needs a network on which they reach each other; it refuses what no
datagram can carry, and the other end reads no more than the size of its buffer.
-/
namespace VideoTransport
namespace Loopback

/-- What carries the datagrams. -/
inductive Carrier where
  | memory
  | sockets
  deriving DecidableEq, Repr

/-- Whether two sockets of this host reach each other. -/
inductive Network where
  | reachable
  | unreachable
  deriving DecidableEq, Repr

namespace Carrier

/-- Join the two ends, which takes a network if there are sockets to join. -/
def connect : Carrier → Network → Except Fault Unit
  | .sockets, .unreachable => .error (.io "Network is unreachable (os error 101)")
  | _, _ => .ok ()

/-- The longest datagram that a socket sends. -/
def longestDatagram : Nat := 65507

/-- The buffer that the receiving socket reads into. -/
def readBuffer : Nat := 2048

/-- What arrives of a datagram, or why it cannot be sent. -/
def carry : Carrier → Bytes → Except Fault Bytes
  | .memory, data => .ok data
  | .sockets, data =>
    if longestDatagram < data.length then .error (.io "Message too long (os error 90)")
    else .ok (data.take readBuffer)

end Carrier

/-- Which chances a link gives to mishaps, and the dice that decide. -/
structure Weather where
  carrier : Carrier := .memory
  loss : Chance
  /-- The chance of being held back. -/
  reorder : Chance
  dice : Nat → Draw

structure Link where
  /-- How often the dice have been thrown. -/
  draws : Nat := 0
  /-- The datagram that is held back. -/
  held : Option Bytes := none
  /-- What has passed and not been taken, the latest first. -/
  passed : List Bytes := []
  dropped : Nat := 0
  swapped : Nat := 0
  deriving DecidableEq, Repr

namespace Link

def pass (w : Weather) (l : Link) (data : Bytes) : Except Fault Unit × Link :=
  match w.carrier.carry data with
  | .error fault => (.error fault, l)
  | .ok data => (.ok (), { l with passed := data :: l.passed })

/-- Let the datagram pass that is held back, if there is one. -/
def passHeld (w : Weather) (l : Link) : Except Fault Unit × Link :=
  match l.held with
  | none => (.ok (), l)
  | some late => { l with held := none }.pass w late

/-- Throw the dice for a chance. -/
def throwDice (w : Weather) (l : Link) (c : Chance) : Bool × Link :=
  (c.fires (w.dice l.draws), { l with draws := l.draws + 1 })

/-- Pass on a datagram that has not been lost: unless one is held back already, it may be held back itself, and when
it passes, the one held back follows it. -/
def forward (w : Weather) (l : Link) (data : Bytes) : Except Fault Unit × Link :=
  let (holds, l) := if l.held.isNone then l.throwDice w w.reorder else (false, l)
  if holds then (.ok (), { l with held := some data, swapped := l.swapped + 1 })
  else
    match l.pass w data with
    | (.error fault, l) => (.error fault, l)
    | (.ok (), l) => l.passHeld w

/-- Take a datagram from the sender. -/
def send (w : Weather) : Sink Link := fun l data =>
  let (lost, l) := l.throwDice w w.loss
  if lost then (.ok (), { l with dropped := l.dropped + 1 }) else l.forward w data

/-- Take everything that has passed, oldest first. -/
def drain (l : Link) : List Bytes × Link := (l.passed.reverse, { l with passed := [] })

end Link
end Loopback
end VideoTransport
