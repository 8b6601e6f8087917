import VideoTransport.Loopback.Run
/-!
# Main — the loopback command

The command reads its options, runs frame by frame on the real clock and with real dice, and prints the report.
-/
namespace VideoTransport
namespace Loopback

/-- The time since `origin`, on both clocks; the run looks at differences alone, so both may count from the same
point. -/
def momentSince (origin : Nat) : IO Moment := do
  let nanos := (← IO.monoNanosNow) - origin
  return { wall := Rtcp.WallTime.ofUnixNanos nanos, nanos }

def numberOf (octets : ByteArray) : Nat := octets.foldl (fun n b => n * 256 + b.toNat) 0

/-- Random dice, source number and first packet number.  A queue with the limits of sockets stands in for them, so the
network is always there; the clock is read frame by frame instead. -/
def randomSurroundings : IO Surroundings := do
  let seed := numberOf (← IO.getRandomBytes 8)
  let ssrc := numberOf (← IO.getRandomBytes 4)
  let start := numberOf (← IO.getRandomBytes 2)
  return { dice := dice (UInt64.ofNat seed), network := .reachable, clock := fun _ => ⟨⟨0, 0⟩, 0⟩,
           ssrc := UInt32.ofNat ssrc, start := UInt16.ofNat start }

/-- Handle `count` frames from the one with number `index` on, as time goes by. -/
def stepsLive (o : Options) (w : Weather) (origin : Nat) : Nat → Nat → State → IO (Except Ending State)
  | 0, _, st => return .ok st
  | count + 1, index, st => do
    match step o w st index (← momentSince origin) with
    | .error ending => return .error ending
    | .ok st =>
      if o.realtime then IO.sleep (1000 / max o.fps 1)
      stepsLive o w origin count (index + 1) st

def runLive (o : Options) : IO (Except Ending State) := do
  let w ← randomSurroundings
  let origin ← IO.monoNanosNow
  match begin o w with
  | .error fault => return .error (.failed fault)
  | .ok st => stepsLive o (o.weather w.dice) origin o.frames.toNat 0 st

def finish (outcome : Outcome) : IO UInt32 := do
  for line in outcome.output do
    IO.println line
  for line in outcome.errors do
    IO.eprintln line
  return outcome.exit

def runCommand (words : List String) : IO UInt32 := do
  match Options.read words with
  | .error refusal => finish (.ofRefusal refusal)
  | .ok o => finish (.ofRun o (← runLive o))

end Loopback
end VideoTransport

def main (args : List String) : IO UInt32 := VideoTransport.Loopback.runCommand args
