import VideoTransport.Proofs.Extension
import VideoTransport.Proofs.Tally
import VideoTransport.Proofs.Wire
/-!
# Tidings — what a reception learns from a run

Whatever else a move does to a receiver, its reception learns one of three things from it, or nothing: that a packet or
a sender report has come, or that a report has been asked for (`Consumer.reception_moved`).  What is learnt can be read
off the datagrams alone.
-/
namespace VideoTransport

inductive Tiding where
  | nothing
  | packet (p : Sighting)
  | report (r : Rtcp.SenderReport) (arrived : Nat)
  | asked (now : Nat)

namespace Tiding

def isPacket : Tiding → Bool
  | .packet _ => true
  | _ => false

/-- The compact time of a sender report, and when it came. -/
def stamp? : Tiding → Option (UInt32 × Nat)
  | .report r arrived => some (r.time.compact, arrived)
  | _ => none

def ofMedia (datagram : Bytes) (arrival : UInt32) : Tiding :=
  match Rtp.Packet.parse datagram with
  | .error _ => .nothing
  | .ok p => .packet ⟨p.header.ssrc, p.header.sequence, p.header.timestamp, arrival⟩

def ofReport (data : Bytes) (now : Nat) : Tiding :=
  match Rtcp.Report.parse data with
  | .ok (.sender r) => .report r now
  | _ => .nothing

theorem ofMedia_write (h : Rtp.Header) (payload : Bytes) (arrival : UInt32) :
    ofMedia (h.write ++ payload) arrival = .packet ⟨h.ssrc, h.sequence, h.timestamp, arrival⟩ := by
  rw [ofMedia, Rtp.Packet.parse_write]

end Tiding

/-! ## Learning -/

namespace Reception

def learn (r : Reception) : Tiding → Reception
  | .nothing => r
  | .packet p => r.record p.source p.number p.mediaTime p.arrival
  | .report report arrived => r.recordReport report arrived
  | .asked now => if r.hasReport then (r.reportBlock now).2 else r

def learnAll (r : Reception) (tidings : List Tiding) : Reception := tidings.foldl learn r

theorem learnAll_append (r : Reception) (earlier later : List Tiding) :
    r.learnAll (earlier ++ later) = (r.learnAll earlier).learnAll later := List.foldl_append

variable {r : Reception} {s : UInt32}

theorem learn_keeps (h : r.source = some s) (t : Tiding) :
    (r.learn t).source = some s ∧ (r.learn t).base = r.base ∧
      (r.learn t).received = r.received + UInt64.ofNat (if t.isPacket then 1 else 0) := by
  cases t with
  | packet p =>
    obtain ⟨_, _, _, _, hrecord⟩ := record_of_source h p
    rw [learn, hrecord]
    exact ⟨h, rfl, rfl⟩
  | asked now =>
    rw [learn]
    split <;> exact ⟨h, rfl, (UInt64.add_zero _).symm⟩
  | nothing | report => exact ⟨h, rfl, (UInt64.add_zero _).symm⟩

theorem learnAll_keeps : ∀ (tidings : List Tiding) {r : Reception}, r.source = some s →
    (r.learnAll tidings).source = some s ∧ (r.learnAll tidings).base = r.base ∧
      (r.learnAll tidings).received = r.received + UInt64.ofNat (tidings.countP Tiding.isPacket)
  | [], _, h => ⟨h, rfl, (UInt64.add_zero _).symm⟩
  | t :: rest, r, h => by
    obtain ⟨hsource, hbase, hreceived⟩ := learn_keeps h t
    obtain ⟨ihsource, ihbase, ihreceived⟩ := learnAll_keeps rest hsource
    refine ⟨ihsource, ihbase.trans hbase, ihreceived.trans ?_⟩
    rw [hreceived, UInt64.add_assoc, ← UInt64.ofNat_add, List.countP_cons, Nat.add_comm]

theorem lastReport_learn (r : Reception) (t : Tiding) : (r.learn t).lastReport = t.stamp?.or r.lastReport := by
  cases t with
  | packet p =>
    unfold learn record
    cases hsource : r.source with
    | none => rfl
    | some _ =>
      obtain ⟨_, _, hadvance⟩ := r.advance_cases p.number
      simp only [hadvance]
      rfl
  | asked now =>
    rw [learn]
    split <;> rfl
  | nothing | report => rfl

/-- The last sender report is the one that came last, whoever sent it. -/
theorem lastReport_learnAll : ∀ (tidings : List Tiding) (r : Reception),
    (r.learnAll tidings).lastReport = (tidings.filterMap Tiding.stamp?).getLast?.or r.lastReport
  | [], _ => rfl
  | t :: rest, r => by
    have hrest := lastReport_learnAll rest (r.learn t)
    rw [lastReport_learn] at hrest
    refine hrest.trans ?_
    cases hstamp : t.stamp? with
    | none => simp [hstamp]
    | some stamp => cases h : (rest.filterMap Tiding.stamp?).getLast? <;> simp [hstamp, h, List.getLast?_cons]

end Reception

/-! ## Moves -/

namespace Receiver

theorem reception_processMedia (r : Receiver) (datagram : Bytes) (arrival : UInt32) :
    (r.processMedia datagram arrival).receiver.reception = r.reception.learn (.ofMedia datagram arrival) := by
  unfold processMedia Tiding.ofMedia
  cases hp : Rtp.Packet.parse datagram with
  | error reason => rfl
  | ok packet =>
    simp only
    split <;> rfl

theorem reception_processReport (r : Receiver) (data : Bytes) (now : Nat) :
    (r.processReport data now).2.reception = r.reception.learn (.ofReport data now) := by
  unfold processReport Tiding.ofReport
  cases Rtcp.Report.parse data with
  | error reason => rfl
  | ok report => cases report <;> rfl

theorem reception_buildReport (r : Receiver) (reporter : UInt32) (now : Nat) :
    (r.buildReport reporter now).2.reception = r.reception.learn (.asked now) := by
  unfold buildReport Reception.learn
  split <;> rfl

end Receiver

namespace Consumer

/-- What a reception learns from a move. -/
def Move.tiding : Move → Tiding
  | .act (.hand (.media datagram arrival)) => .ofMedia datagram arrival
  | .act (.hand (.any datagram arrival now)) =>
    if Rtcp.isReport datagram then .ofReport datagram now else .ofMedia datagram arrival
  | .act (.giveBack _) => .nothing
  | .report data now => .ofReport data now
  | .build _ now => .asked now
  | .reset => .nothing

theorem reception_move (c : Consumer) :
    ∀ m : Move, (c.move m).receiver.reception = c.receiver.reception.learn m.tiding
  | .act (.hand (.media datagram arrival)) => c.receiver.reception_processMedia datagram arrival
  | .act (.hand (.any datagram arrival now)) => by
    show (c.receiver.processDatagram datagram arrival now).receiver.reception = _
    rw [Receiver.processDatagram, Move.tiding]
    split
    · exact c.receiver.reception_processReport datagram now
    · exact c.receiver.reception_processMedia datagram arrival
  | .act (.giveBack _) => rfl
  | .report data now => c.receiver.reception_processReport data now
  | .build reporter now => c.receiver.reception_buildReport reporter now
  | .reset => rfl

/-- **What a reception learns from a run** is what it learns from each move. -/
theorem reception_moved : ∀ (moves : List Move) (c : Consumer),
    (c.moved moves).receiver.reception = c.receiver.reception.learnAll (moves.map Move.tiding)
  | [], _ => rfl
  | m :: rest, c => by
    have hrest : ((c.move m).moved rest).receiver.reception = _ := reception_moved rest (c.move m)
    rw [reception_move] at hrest
    exact hrest

end Consumer
end VideoTransport
