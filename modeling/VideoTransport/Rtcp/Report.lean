import VideoTransport.Rtcp.Time
import VideoTransport.Fault
/-!
# Report — sender and receiver reports

A sender report says how much has been sent and when; a receiver report says how much of one source has arrived.
Only the first report of a compound datagram is read, and of a receiver report only the first block.
-/
namespace VideoTransport
namespace Rtcp

/-! ## Packet types -/

def senderReportType : UInt8 := 200
def receiverReportType : UInt8 := 201

/-- The last of the packet types that share the upper half of the octet with media packets. -/
def lastReportType : UInt8 := 204

/-- Whether a datagram holds reports rather than media. -/
def isReport : Bytes → Bool
  | b0 :: b1 :: _ => b0 >>> 6 = 2 && senderReportType ≤ b1 && b1 ≤ lastReportType
  | _ => false

/-- Whether media packets of this type would be taken for reports when their marker is set. -/
def collides (payloadType : UInt8) : Bool :=
  senderReportType &&& 0x7f ≤ payloadType && payloadType ≤ lastReportType &&& 0x7f

/-! ## Reports -/

structure SenderReport where
  ssrc : UInt32
  time : WallTime
  rtpTimestamp : UInt32
  packetCount : UInt32
  octetCount : UInt32
  deriving DecidableEq, Repr

/-- What a receiver says about one source. -/
structure ReportBlock where
  ssrc : UInt32
  /-- The share lost since the previous report, in 256ths. -/
  fractionLost : UInt8
  /-- Signed; twenty-four bits on the wire. -/
  cumulativeLost : Int
  extendedHighest : UInt32
  jitter : UInt32
  /-- The compact time of the last sender report that arrived. -/
  lastReport : UInt32
  /-- How long ago that was, in units of 1/65536 s. -/
  delay : UInt32
  deriving DecidableEq, Repr

structure ReceiverReport where
  reporter : UInt32
  block : Option ReportBlock
  deriving DecidableEq, Repr

inductive Report where
  | sender (r : SenderReport)
  | receiver (r : ReceiverReport)
  deriving DecidableEq, Repr

/-! ## Signed twenty-four bits -/

/-- The nearest number that twenty-four bits hold. -/
def clampLost (n : Int) : Int := max (-0x800000) (min 0x7fffff n)

/-- The twenty-four bits of a number, as a natural number. -/
def lostField (n : Int) : Nat := (clampLost n % 0x1000000).toNat

/-- The number that twenty-four bits write. -/
def lostOfField (field : Nat) : Int := if field < 0x800000 then field else (field : Int) - 0x1000000

/-! ## Writing -/

/-- The header of a report with `count` blocks that takes `length` octets in all. -/
def writeHeader (count : Nat) (kind : UInt8) (length : Nat) : Bytes :=
  UInt8.ofNat (0x80 + count) :: kind :: Bytes.ofWord16 (UInt16.ofNat (length / 4 - 1))

def SenderReport.write (r : SenderReport) : Bytes :=
  writeHeader 0 senderReportType 28 ++ Bytes.ofWord32 r.ssrc ++ Bytes.ofWord32 r.time.seconds ++
    Bytes.ofWord32 r.time.fraction ++ Bytes.ofWord32 r.rtpTimestamp ++ Bytes.ofWord32 r.packetCount ++
    Bytes.ofWord32 r.octetCount

def ReportBlock.write (b : ReportBlock) : Bytes :=
  Bytes.ofWord32 b.ssrc ++
    Bytes.ofWord32 (UInt32.ofNat (b.fractionLost.toNat * 0x1000000 + lostField b.cumulativeLost)) ++
    Bytes.ofWord32 b.extendedHighest ++ Bytes.ofWord32 b.jitter ++ Bytes.ofWord32 b.lastReport ++
    Bytes.ofWord32 b.delay

def ReceiverReport.write (r : ReceiverReport) : Bytes :=
  match r.block with
  | none => writeHeader 0 receiverReportType 8 ++ Bytes.ofWord32 r.reporter
  | some b => writeHeader 1 receiverReportType 32 ++ Bytes.ofWord32 r.reporter ++ b.write

def Report.write : Report → Bytes
  | .sender r => r.write
  | .receiver r => r.write

/-! ## Reading -/

def takeWord : Bytes → Option (UInt32 × Bytes)
  | a :: b :: c :: d :: rest => some (Bytes.word32 a b c d, rest)
  | _ => none

/-- Take `n` words off the front. -/
def takeWords : Nat → Bytes → Option (List UInt32 × Bytes)
  | 0, data => some ([], data)
  | n + 1, data => do
    let (w, data) ← takeWord data
    let (ws, data) ← takeWords n data
    return (w :: ws, data)

/-- The sender report in the octets after the header. -/
def SenderReport.ofBody (body : Bytes) : Option SenderReport :=
  match takeWords 6 body with
  | some ([ssrc, seconds, fraction, rtpTimestamp, packetCount, octetCount], _) =>
    some { ssrc, time := ⟨seconds, fraction⟩, rtpTimestamp, packetCount, octetCount }
  | _ => none

/-- The first block in the octets after the reporter. -/
def ReportBlock.ofBody (body : Bytes) : Option ReportBlock :=
  match takeWords 6 body with
  | some ([ssrc, loss, extendedHighest, jitter, lastReport, delay], _) =>
    some { ssrc, fractionLost := UInt8.ofNat (loss.toNat / 0x1000000),
           cumulativeLost := lostOfField (loss.toNat % 0x1000000), extendedHighest, jitter, lastReport, delay }
  | _ => none

/-- The receiver report with `count` blocks in the octets after the header. -/
def ReceiverReport.ofBody (count : Nat) (body : Bytes) : Option ReceiverReport := do
  let (reporter, body) ← takeWord body
  if count = 0 then return { reporter, block := none }
  else do
    let block ← ReportBlock.ofBody body
    return { reporter, block := some block }

/-- Read the first report of a datagram.  The length word counts the words after the first, and the report must have
room for the `count` blocks it announces. -/
def Report.parse (data : Bytes) : Except Malformation Report :=
  if data.length < 8 then .error .truncated
  else match data with
  | b0 :: kind :: high :: low :: rest =>
    if b0 >>> 6 ≠ 2 then .error .badVersion
    else
      let count := (b0 &&& 0x1f).toNat
      let length := 4 * ((Bytes.word16 high low).toNat + 1)
      if data.length < length then .error .truncated
      else
        let body := rest.take (length - 4)
        if kind = senderReportType then
          if length < 28 + 24 * count then .error .badLength
          else ((SenderReport.ofBody body).map Report.sender).elim (.error .badLength) .ok
        else if kind = receiverReportType then
          if length < 8 + 24 * count then .error .badLength
          else ((ReceiverReport.ofBody count body).map Report.receiver).elim (.error .badLength) .ok
        else .error (.unsupportedType kind)
  | _ => .error .truncated

end Rtcp
end VideoTransport
