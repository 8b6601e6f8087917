import VideoTransport.Outbound.Packetizer
import VideoTransport.Settings
import VideoTransport.Stats.Counters
/-!
# Sender — the sending half of a stream

A sender turns access units into datagrams, hands them to a sink one by one, and counts those that the sink takes.
The first refusal ends the unit: the datagram that was refused has used up its number, and later ones are not made.
Sender reports state the counts; receiver reports about this stream bring back loss, jitter and a round-trip time.
-/
namespace VideoTransport

/-- Something that takes datagrams, or refuses them. -/
abbrev Sink (σ : Type) := σ → Bytes → Except Fault Unit × σ

structure Sender where
  settings : SenderSettings
  packetizer : Packetizer
  counters : Counters := {}
  /-- The compact time of the last sender report. -/
  lastReport : Option UInt32 := none

namespace Sender

/-- Set up a sender; `ssrc` is its source number unless the settings name one. -/
def create (settings : SenderSettings) (cipher : Cipher) (ssrc : UInt32) (start : Serial) : Except Fault Sender := do
  settings.validate
  let packetizer ← Packetizer.create settings.payloadType (settings.ssrc.getD ssrc) settings.mtu cipher
  return { settings, packetizer := packetizer.startAt start }

def ssrc (s : Sender) : UInt32 := s.packetizer.ssrc

/-! ## Media -/

/-- How a unit has been sent. -/
structure Sent (σ : Type) where
  sender : Sender
  sink : σ
  /-- The datagrams that the sink took, in order. -/
  taken : List Bytes
  /-- Why the unit was broken off, if it was. -/
  fault : Option Fault

/-- Send at most `fuel` packets of a unit. -/
def sendPackets {σ : Type} (sink : Sink σ) : Nat → Packetizer.Cursor → Sender → σ → Sent σ
  | 0, _, s, st => ⟨s, st, [], none⟩
  | fuel + 1, c, s, st =>
    match s.packetizer.next c with
    | (none, packetizer, _) => ⟨{ s with packetizer }, st, [], none⟩
    | (some packet, packetizer, c) =>
      let s := { s with packetizer }
      match sink st packet with
      | (.error fault, st) => ⟨s, st, [], some fault⟩
      | (.ok (), st) =>
        let r := sendPackets sink fuel c { s with counters := s.counters.recordSent packet.length } st
        { r with taken := packet :: r.taken }

/-- Send an access unit; it counts as sent when no datagram was refused. -/
def send {σ : Type} (s : Sender) (sink : Sink σ) (st : σ) (u : AccessUnit) : Sent σ :=
  let (c, packetizer) := s.packetizer.begin u
  let r := sendPackets sink (c.weight + 1) c { s with packetizer } st
  match r.fault with
  | some _ => r
  | none => { r with sender := { r.sender with counters := r.sender.counters.recordUnitSent } }

/-! ## Reports -/

/-- The octets of all payloads sent: datagrams less their headers. -/
def payloadOctets (c : Counters) : UInt64 :=
  let headers := c.packetsSent * UInt64.ofNat Rtp.headerLength
  if c.bytesSent < headers then 0 else c.bytesSent - headers

/-- Report on what has been sent by `time`. -/
def buildReport (s : Sender) (time : Rtcp.WallTime) (rtpTimestamp : UInt32) : Rtcp.SenderReport × Sender :=
  ({ ssrc := s.ssrc
     time
     rtpTimestamp
     packetCount := s.counters.packetsSent.toUInt32
     octetCount := (payloadOctets s.counters).toUInt32 },
    { s with lastReport := some time.compact })

structure Heard where
  sender : Sender
  /-- The new round-trip time in milliseconds. -/
  roundTrip : Option Float
  /-- Whether the report was about this stream, so that listeners are told. -/
  heeded : Bool

/-- Take a receiver's datagram that arrives at `now`; only a block about this stream counts. -/
def processReport (s : Sender) (data : Bytes) (now : Rtcp.WallTime) : Heard :=
  match Rtcp.Report.parse data with
  | .error _ => ⟨{ s with counters := s.counters.recordMalformed 1 }, none, false⟩
  | .ok (.sender _) => ⟨s, none, false⟩
  | .ok (.receiver r) =>
    match r.block with
    | none => ⟨s, none, false⟩
    | some block =>
      if block.ssrc ≠ s.ssrc then ⟨s, none, false⟩
      else
        let counters := s.counters.setReception block.cumulativeLost block.jitter.toFloat.toBits
        match Rtcp.roundTrip now.compact block.lastReport block.delay with
        | none => ⟨{ s with counters }, none, true⟩
        | some ms => ⟨{ s with counters := counters.setRoundTrip ms.toBits }, some ms, true⟩

/-- Forget what has been counted. -/
def reset (s : Sender) : Sender := { s with counters := s.counters.reset }

def describe (s : Sender) : String :=
  "RtpVideoSender \x7b config: " ++ s.settings.describe ++ ", stats: " ++ s.counters.describe ++ " \x7d"

end Sender
end VideoTransport
