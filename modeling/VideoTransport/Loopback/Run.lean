import VideoTransport.Inbound.Receiver
import VideoTransport.Loopback.Link
import VideoTransport.Loopback.Options
import VideoTransport.Loopback.Picture
import VideoTransport.Session.Pair
/-!
# Run — made-up frames from a sender to a receiver

A run sends frames over a link, compares what comes out with what went in, and lets the receiving side ask for a key
frame when frames have been dropped.  Once in a second's worth of frames reports go both ways.  A run ends
early when a call fails, or when more memory is asked for than there can be.  Everything that hangs on chance or on the
clock comes from the surroundings, so a run is a function.
-/
namespace VideoTransport
namespace Loopback

/-! ## The surroundings -/

/-- A point in time on both clocks. -/
structure Moment where
  wall : Rtcp.WallTime
  /-- Nanoseconds since the start of the run. -/
  nanos : Nat
  deriving DecidableEq, Repr

/-- What a run finds and does not choose. -/
structure Surroundings where
  /-- The dice for mishaps on the link. -/
  dice : Nat → Draw
  network : Network
  /-- When the frame with this number is handled. -/
  clock : Nat → Moment
  /-- The source number of the sender. -/
  ssrc : UInt32
  start : Serial

def Options.carrier (o : Options) : Carrier := if o.udp then .sockets else .memory

def Options.weather (o : Options) (dice : Nat → Draw) : Weather where
  carrier := o.carrier
  loss := o.loss
  reorder := o.reorder
  dice

def Options.cipher (o : Options) : Cipher := (o.xorKey.map Cipher.xor).getD Cipher.identity

def Options.session (o : Options) : SessionSettings := { fps := o.fps, mtu := o.mtu }

/-! ## The state of a run -/

/-- The encoder that made-up frames come from. -/
structure Encoder where
  /-- The next frame must be a key frame. -/
  keyWanted : Bool := false
  /-- How often a key frame has been asked for. -/
  requests : Nat := 0
  deriving DecidableEq, Repr

structure State where
  sender : Sender
  receiver : Receiver
  link : Link := {}
  peers : Session.Pair
  encoder : Encoder := {}
  /-- The bitstreams sent, by timestamp, the latest first. -/
  sent : List (UInt32 × Bytes) := []
  delivered : Nat := 0
  /-- Units that came out other than they went in. -/
  corrupt : Nat := 0
  /-- Dropped frames for which a key frame has been asked. -/
  droppedSeen : UInt64 := 0

def encoderName : String := "synthetic"

/-- Two sides that have agreed on a session: the first offers and has the encoder, the second answers. -/
def negotiate (s : SessionSettings) : Except Fault Session.Pair :=
  let a : Session.Endpoint := { manager := {}, encoder := some encoderName }
  let b : Session.Endpoint := { manager := {}, answering := 1 }
  match a.offer s (.ok ()) with
  | (.error fault, _, _) => .error fault
  | (.ok _, messages, a) =>
    let pair : Session.Pair := { a, b }
    .ok (pair.send (messages.map Session.Message.toJson) .a).settle.2.2

/-- Set up the link, both halves of the stream and the session, in this order. -/
def begin (o : Options) (w : Surroundings) : Except Fault State := do
  o.carrier.connect w.network
  let sender ← Sender.create { mtu := o.mtu } o.cipher w.ssrc w.start
  let receiver ← Receiver.create {} o.cipher
  let peers ← negotiate o.session
  return { sender, receiver, peers }

/-! ## One frame -/

/-- Why a run ends before its report. -/
inductive Ending where
  | failed (fault : Fault)
  /-- A frame was to be longer than any piece of memory. -/
  | overflowed

def isRequest : Session.Event → Bool
  | .encoder _ => true
  | _ => false

/-- Let the receiving side ask for a key frame; the request reaches the encoder before its next frame. -/
def requestKeyFrame (st : State) : State :=
  let (_, messages) := Session.Endpoint.requestKeyFrame (.ok ())
  let (events, _, peers) := (st.peers.send (messages.map Session.Message.toJson) .b).settle
  let requests := events.countP isRequest
  { st with
    peers
    encoder := { keyWanted := st.encoder.keyWanted || 0 < requests, requests := st.encoder.requests + requests } }

/-- Whether the frame with this number is a key frame. -/
def isKeyFrame (o : Options) (e : Encoder) (index : Nat) : Bool :=
  e.keyWanted || index % max o.keyInterval.toNat 1 = 0

/-- The media time of the frame with this number. -/
def timestampOf (o : Options) (index : Nat) : UInt32 := UInt32.ofNat index * o.session.timestampIncrement

/-- Make and send the frame with this number. -/
def sendFrame (o : Options) (w : Weather) (st : State) (index : Nat) : Except Ending State := do
  let isKey := isKeyFrame o st.encoder index
  let some data := Picture.make index o.frameSize isKey | .error .overflowed
  let timestamp := timestampOf o index
  let (unit, _) ← (AccessUnit.ofBytes (Pool.ofLimit 4) data isKey timestamp index).mapError .failed
  let r := st.sender.send (Link.send w) st.link unit
  match r.fault with
  | some fault => .error (.failed fault)
  | none => return { st with
      sender := r.sender
      link := r.sink
      encoder := { st.encoder with keyWanted := false }
      sent := (timestamp, data) :: st.sent }

/-- Count a unit that came out; it is intact if it is what was sent last with its timestamp. -/
def countUnit (st : State) (u : AccessUnit) : State :=
  let intact := (st.sent.find? (·.1 = u.timestamp)).any (·.2 = u.bytes)
  { st with delivered := st.delivered + 1, corrupt := if intact then st.corrupt else st.corrupt + 1 }

/-- Let the receiver take one datagram; units are counted and their buffers given back. -/
def takeDatagram (st : State) (at_ : Moment) (data : Bytes) : Except Fault State :=
  let arrival := Receiver.arrivalUnits st.receiver.settings.clockRate at_.nanos
  let r := st.receiver.processDatagram data arrival at_.nanos
  match r.result with
  | .error fault => .error fault
  | .ok units =>
    let receiver := r.receiver.withPool (AccessUnit.releaseAll units r.receiver.pool)
    .ok (units.foldl countUnit { st with receiver })

def takeDatagrams (st : State) (at_ : Moment) : List Bytes → Except Fault State
  | [] => .ok st
  | data :: rest => do
    let st ← takeDatagram st at_ data
    takeDatagrams st at_ rest

/-- Let the receiver take everything that has passed the link. -/
def receivePassed (st : State) (at_ : Moment) : Except Fault State :=
  let (passed, link) := st.link.drain
  takeDatagrams { st with link } at_ passed

/-- Ask for a key frame when more frames have been dropped than before. -/
def heedDrops (st : State) : State :=
  let dropped := st.receiver.counters.framesDropped
  if st.droppedSeen < dropped then requestKeyFrame { st with droppedSeen := dropped } else st

def reporter : UInt32 := 0x4c4f4f50

/-- Exchange reports: the sender's first, and the receiver's in reply. -/
def exchangeReports (st : State) (at_ : Moment) (timestamp : UInt32) : State :=
  let (report, sender) := st.sender.buildReport at_.wall timestamp
  let (_, receiver) := st.receiver.processReport report.write at_.nanos
  match receiver.buildReport reporter at_.nanos with
  | (none, receiver) => { st with sender, receiver }
  | (some reply, receiver) => { st with sender := (sender.processReport reply.write at_.wall).sender, receiver }

/-- Whether a second's worth of frames ends with this one. -/
def endsSecond (o : Options) (index : Nat) : Bool :=
  let fps := max o.fps.toNat 1
  index % fps = fps - 1

def step (o : Options) (w : Weather) (st : State) (index : Nat) (at_ : Moment) : Except Ending State := do
  let st ← sendFrame o w st index
  let st ← (receivePassed st at_).mapError .failed
  let st := heedDrops st
  return if endsSecond o index then exchangeReports st at_ (timestampOf o index) else st

/-! ## The whole run -/

/-- Handle `count` frames from the one with number `index` on. -/
def steps (o : Options) (w : Surroundings) : Nat → Nat → State → Except Ending State
  | 0, _, st => .ok st
  | count + 1, index, st => do
    let st ← step o (o.weather w.dice) st index (w.clock index)
    steps o w count (index + 1) st

def run (o : Options) (w : Surroundings) : Except Ending State := do
  let st ← (begin o w).mapError .failed
  steps o w o.frames.toNat 0 st

def reportLines (o : Options) (st : State) : List String :=
  ["frames sent       " ++ toString o.frames.toNat,
   "frames delivered  " ++ toString st.delivered,
   "frames corrupt    " ++ toString st.corrupt,
   "link              dropped=" ++ toString st.link.dropped ++ " swapped=" ++ toString st.link.swapped,
   "key frame requests " ++ toString st.encoder.requests,
   "sender            " ++ st.sender.counters.summary,
   "receiver          " ++ st.receiver.counters.summary]

def failureLine (fault : Fault) : String := "Loopback failed: " ++ fault.message

/-- What is said when more memory is asked for than there can be, apart from where in the program this was. -/
def overflowLine : String := "capacity overflow"

/-! ## The command -/

structure Outcome where
  exit : UInt32
  output : List String := []
  errors : List String := []
  deriving DecidableEq, Repr

namespace Outcome

def ofRefusal : Refusal → Outcome
  | .help => { exit := 0, output := helpLines }
  | r => { exit := 2, errors := r.lines }

def ofRun (o : Options) : Except Ending State → Outcome
  | .ok st => { exit := 0, output := reportLines o st }
  | .error (.failed fault) => { exit := 1, errors := [failureLine fault] }
  | .error .overflowed => { exit := 101, errors := [overflowLine] }

end Outcome

def command (words : List String) (w : Surroundings) : Outcome :=
  match Options.read words with
  | .error refusal => .ofRefusal refusal
  | .ok o => .ofRun o (run o w)

end Loopback
end VideoTransport
