import VideoTransport.Base64
import VideoTransport.Buffer.AccessUnit
import VideoTransport.Buffer.Holdings
import VideoTransport.Buffer.Ledger
import VideoTransport.Buffer.Pool
import VideoTransport.Bytes
import VideoTransport.Cipher
import VideoTransport.Decimal.Binary
import VideoTransport.Decimal.Digits
import VideoTransport.Decimal.Fixed
import VideoTransport.Decimal.Shortest
import VideoTransport.Fault
import VideoTransport.Inbound.Assembler
import VideoTransport.Inbound.Frame
import VideoTransport.Inbound.Receiver
import VideoTransport.Inbound.Reception
import VideoTransport.Inbound.Reorder
import VideoTransport.Json.Failure
import VideoTransport.Json.Number
import VideoTransport.Json.Phrase
import VideoTransport.Json.Record
import VideoTransport.Json.Tree
import VideoTransport.Listeners
import VideoTransport.Loopback.Chance
import VideoTransport.Loopback.Link
import VideoTransport.Loopback.Options
import VideoTransport.Loopback.Picture
import VideoTransport.Loopback.Run
import VideoTransport.Main
import VideoTransport.Nal.AnnexB
import VideoTransport.Nal.Payload
import VideoTransport.Outbound.Packetizer
import VideoTransport.Outbound.Plan
import VideoTransport.Outbound.Sender
import VideoTransport.Outbound.WordPacketizer
import VideoTransport.Proofs.Advertisement
import VideoTransport.Proofs.Alteration
import VideoTransport.Proofs.Arena
import VideoTransport.Proofs.Ascent
import VideoTransport.Proofs.Assembly
import VideoTransport.Proofs.Attempts
import VideoTransport.Proofs.Batch
import VideoTransport.Proofs.Capacity
import VideoTransport.Proofs.Carriage
import VideoTransport.Proofs.Clock
import VideoTransport.Proofs.Completeness
import VideoTransport.Proofs.Compound
import VideoTransport.Proofs.Conservation
import VideoTransport.Proofs.Consumer
import VideoTransport.Proofs.Convoy
import VideoTransport.Proofs.Crossing
import VideoTransport.Proofs.Custody
import VideoTransport.Proofs.Datagram
import VideoTransport.Proofs.Delivery
import VideoTransport.Proofs.Demand
import VideoTransport.Proofs.Dialogue
import VideoTransport.Proofs.Division
import VideoTransport.Proofs.Estimate
import VideoTransport.Proofs.Exactness
import VideoTransport.Proofs.Extension
import VideoTransport.Proofs.Extent
import VideoTransport.Proofs.Following
import VideoTransport.Proofs.Foreign
import VideoTransport.Proofs.Founding
import VideoTransport.Proofs.Fragmentation
import VideoTransport.Proofs.Grammar
import VideoTransport.Proofs.Intake
import VideoTransport.Proofs.Intervals
import VideoTransport.Proofs.Issue
import VideoTransport.Proofs.Joining
import VideoTransport.Proofs.Latitude
import VideoTransport.Proofs.Lending
import VideoTransport.Proofs.Loss
import VideoTransport.Proofs.Messages
import VideoTransport.Proofs.Offsets
import VideoTransport.Proofs.Origins
import VideoTransport.Proofs.Passage
import VideoTransport.Proofs.Place
import VideoTransport.Proofs.Position
import VideoTransport.Proofs.Quotes
import VideoTransport.Proofs.Recency
import VideoTransport.Proofs.Rendering
import VideoTransport.Proofs.Reordering
import VideoTransport.Proofs.Reports
import VideoTransport.Proofs.Retrying
import VideoTransport.Proofs.Rotation
import VideoTransport.Proofs.RoundTrip
import VideoTransport.Proofs.Routing
import VideoTransport.Proofs.Sending
import VideoTransport.Proofs.Shortage
import VideoTransport.Proofs.Slab
import VideoTransport.Proofs.Slots
import VideoTransport.Proofs.Spelling
import VideoTransport.Proofs.Splitting
import VideoTransport.Proofs.Stages
import VideoTransport.Proofs.Standing
import VideoTransport.Proofs.Stranding
import VideoTransport.Proofs.Survival
import VideoTransport.Proofs.Swapping
import VideoTransport.Proofs.Table
import VideoTransport.Proofs.Tally
import VideoTransport.Proofs.Tidings
import VideoTransport.Proofs.Totals
import VideoTransport.Proofs.Unimpaired
import VideoTransport.Proofs.Wire
import VideoTransport.Proofs.Withdrawal
import VideoTransport.Proofs.WordSizes
import VideoTransport.Proofs.Wording
import VideoTransport.Rtcp.Report
import VideoTransport.Rtcp.Time
import VideoTransport.Rtp
import VideoTransport.Serial
import VideoTransport.Session.Endpoint
import VideoTransport.Session.Manager
import VideoTransport.Session.Message
import VideoTransport.Session.Pair
import VideoTransport.Settings
import VideoTransport.Stats.Counters
import VideoTransport.Text.Hex
import VideoTransport.Text.Invisible
import VideoTransport.Text.Quoted
