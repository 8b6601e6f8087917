import VideoTransport.Inbound.Assembler
import VideoTransport.Inbound.Reception
import VideoTransport.Inbound.Reorder
import VideoTransport.Settings
import VideoTransport.Stats.Counters
/-!
# Receiver — the receiving half of a stream

A datagram is counted, read, put in order and assembled.  Units that come out are shown to the listeners and then
returned.  When the pool has no buffer for a unit, the rest of the batch that was just put in order is lost, and the
units that had come out before it are shown but given back instead of returned.

A receiver is made whenever its settings are accepted: that memory for large capacities may not be had is left out.
-/
namespace VideoTransport

structure Receiver where
  settings : ReceiverSettings
  reorder : Reorder Rtp.Packet
  assembler : Assembler
  /-- How many unreadable payloads have been counted already. -/
  malformedSeen : Nat := 0
  reception : Reception
  counters : Counters := {}

namespace Receiver

def create (settings : ReceiverSettings) (cipher : Cipher) : Except Fault Receiver := do
  settings.validate
  return { settings
           reorder := Reorder.ofCapacity settings.reorderCapacity
           assembler := Assembler.create cipher (Pool.ofLimit settings.poolCapacity) settings.maxAssemblies
           reception := { wrapHigh := settings.wrapHigh, wrapLow := settings.wrapLow } }

/-- The pool behind the access units that come out. -/
def pool (r : Receiver) : Pool := r.assembler.pool

def withPool (r : Receiver) (pool : Pool) : Receiver := { r with assembler := { r.assembler with pool } }

/-- The source that is received, once a packet has come. -/
def source (r : Receiver) : Option UInt32 := r.reception.source

/-- Time since the start in units of the media clock, modulo 2^32. -/
def arrivalUnits (clockRate : UInt32) (nanos : Nat) : UInt32 :=
  UInt32.ofNat (nanos * clockRate.toNat / Rtcp.nanosPerSecond)

/-! ## Media -/

/-- What becomes of packets that leave the reorder buffer together. -/
structure Batch where
  assembler : Assembler
  completed : List AccessUnit
  failure : Option Fault
  /-- The packets behind a failure, which nobody looks at any more. -/
  abandoned : List Rtp.Packet

/-- Assemble packets in order until one fails. -/
def assemble : Assembler → List Rtp.Packet → Batch
  | a, [] => ⟨a, [], none, []⟩
  | a, p :: rest =>
    match a.process p with
    | (a, .error fault) => ⟨a, [], some fault, rest⟩
    | (a, .ok none) => assemble a rest
    | (a, .ok (some unit)) =>
      let batch := assemble a rest
      { batch with completed := unit :: batch.completed }

structure Received where
  receiver : Receiver
  /-- The units shown to the listeners, in order. -/
  shown : List AccessUnit
  /-- The units returned, or why there are none. -/
  result : Except Fault (List AccessUnit)
  /-- Whether it was a sender report, which listeners are told about. -/
  heeded : Bool := false

/-- Note an arriving packet in the reception and the counters. -/
def note (r : Receiver) (h : Rtp.Header) (arrival : UInt32) : Receiver :=
  let reception := r.reception.record h.ssrc h.sequence h.timestamp arrival
  { r with
    reception
    counters := r.counters.setReception reception.cumulativeLost reception.jitter.toBits }

/-- Take over what the assembler has counted. -/
def adopt (r : Receiver) (a : Assembler) (completed : Nat) : Receiver :=
  { r with
    assembler := a
    malformedSeen := a.stats.malformed
    counters := completed.repeat Counters.recordUnitReceived
      ((r.counters.setFramesDropped (UInt64.ofNat a.stats.dropped)).recordMalformed
        (UInt64.ofNat (a.stats.malformed - r.malformedSeen))) }

/-- Take a media datagram; `arrival` is in units of the media clock. -/
def processMedia (r : Receiver) (datagram : Bytes) (arrival : UInt32) : Received :=
  let r := { r with counters := r.counters.recordReceived datagram.length }
  match Rtp.Packet.parse datagram with
  | .error _ => { receiver := { r with counters := r.counters.recordMalformed 1 }, shown := [], result := .ok [] }
  | .ok packet =>
    let r := r.note packet.header arrival
    let (ready, reorder) := (r.reorder.add packet.header.sequence packet).popReady
    let batch := assemble r.assembler ready
    let r := { r with reorder }.adopt batch.assembler batch.completed.length
    match batch.failure with
    | none => { receiver := r, shown := batch.completed, result := .ok batch.completed }
    | some fault =>
      { receiver := r.withPool (AccessUnit.releaseAll batch.completed r.pool), shown := batch.completed,
        result := .error fault }

/-! ## Reports -/

/-- Take a report datagram that arrives at `now`, in nanoseconds; a sender report is remembered. -/
def processReport (r : Receiver) (data : Bytes) (now : Nat) : Option Rtcp.Report × Receiver :=
  match Rtcp.Report.parse data with
  | .error _ => (none, { r with counters := r.counters.recordMalformed 1 })
  | .ok (.sender report) => (some (.sender report), { r with reception := r.reception.recordReport report now })
  | .ok (.receiver report) => (some (.receiver report), r)

/-- Whether listeners are told about a report: sender reports count. -/
def isHeeded : Option Rtcp.Report → Bool
  | some (.sender _) => true
  | _ => false

/-- Report on the source, once a sender report has come. -/
def buildReport (r : Receiver) (reporter : UInt32) (now : Nat) : Option Rtcp.ReceiverReport × Receiver :=
  if r.reception.hasReport then
    let (block, reception) := r.reception.reportBlock now
    (some { reporter, block := some block }, { r with reception })
  else (none, r)

/-- Take a datagram of either kind.  Reports bring no units. -/
def processDatagram (r : Receiver) (datagram : Bytes) (arrival : UInt32) (now : Nat) : Received :=
  if Rtcp.isReport datagram then
    let (report, receiver) := r.processReport datagram now
    { receiver, shown := [], result := .ok [], heeded := isHeeded report }
  else r.processMedia datagram arrival

/-- Forget what has been counted. -/
def reset (r : Receiver) : Receiver := { r with counters := r.counters.reset }

def describe (r : Receiver) : String :=
  "RtpVideoReceiver \x7b config: " ++ r.settings.describe ++ ", stats: " ++ r.counters.describe ++ " \x7d"

end Receiver
end VideoTransport
