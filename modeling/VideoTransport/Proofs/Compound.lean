import VideoTransport.Inbound.Reception
import VideoTransport.Proofs.Reports
/-!
# Compound — a report at the front of a compound datagram

What a datagram carries of a report is all of it, but of a loss out of range the nearest bound (`Report.carried`).  So
much is read of the report at the front, whatever stands behind it (`Report.parse_write`).  The blocks made from what
has arrived are carried whole (`Reception.carried_reportBlock`).
-/
namespace VideoTransport
namespace Rtcp

/-! ## What is carried -/

/-- The loss that is carried: below and above the range of twenty-four bits, its bound. -/
def carriedLoss (n : Int) : Int :=
  if n < -0x800000 then -0x800000 else if 0x7fffff < n then 0x7fffff else n

theorem clampLost_eq_carriedLoss (n : Int) : clampLost n = carriedLoss n := by
  unfold clampLost carriedLoss
  omega

/-- No number that twenty-four bits hold is nearer. -/
theorem clampLost_nearest (n : Int) {m : Int} (hm : -0x800000 ≤ m ∧ m ≤ 0x7fffff) :
    (n - clampLost n).natAbs ≤ (n - m).natAbs := by
  unfold clampLost
  omega

theorem carriedLoss_eq_self_iff (n : Int) : carriedLoss n = n ↔ -0x800000 ≤ n ∧ n ≤ 0x7fffff := by
  unfold carriedLoss
  split
  · omega
  · split <;> omega

def ReportBlock.carried (b : ReportBlock) : ReportBlock := { b with cumulativeLost := carriedLoss b.cumulativeLost }

/-- A block whose loss is in range is carried whole, and no other is. -/
theorem ReportBlock.carried_eq_self_iff (b : ReportBlock) :
    b.carried = b ↔ -0x800000 ≤ b.cumulativeLost ∧ b.cumulativeLost ≤ 0x7fffff := by
  rw [← carriedLoss_eq_self_iff]
  exact ⟨congrArg ReportBlock.cumulativeLost, fun h => by rw [carried, h]⟩

/-- What a datagram carries of a report. -/
def Report.carried : Report → Report
  | .sender r => .sender r
  | .receiver r => .receiver { r with block := r.block.map ReportBlock.carried }

/-! ## Reading -/

/-- **What is carried of a report is read**, whatever follows it. -/
theorem Report.parse_write (r : Report) (rest : Bytes) : Report.parse (r.write ++ rest) = .ok r.carried := by
  cases r with
  | sender r => exact r.parse_write rest
  | receiver r =>
    have hparse := r.parse_write rest
    simp only [clampLost_eq_carriedLoss] at hparse
    exact hparse

end Rtcp

/-- **A block made from what has arrived** is carried whole: its loss is within bounds before it is written. -/
theorem Reception.carried_reportBlock (r : Reception) (now : Nat) :
    (r.reportBlock now).1.carried = (r.reportBlock now).1 := by
  rw [Rtcp.ReportBlock.carried_eq_self_iff]
  show -0x800000 ≤ Rtcp.clampLost r.cumulativeLost ∧ Rtcp.clampLost r.cumulativeLost ≤ 0x7fffff
  unfold Rtcp.clampLost
  omega

namespace Rtcp

/-- **The reports.**  At the front of any datagram, a sender report reads back, a receiver report reads back but for a
loss out of range, which comes back as the nearest bound, and one whose block has been made from what has arrived reads
back whole. -/
theorem Report.parse_compound (rest : Bytes) :
    (∀ r : SenderReport, Report.parse (r.write ++ rest) = .ok (.sender r)) ∧
    (∀ reporter, Report.parse ((ReceiverReport.mk reporter none).write ++ rest) = .ok (.receiver ⟨reporter, none⟩)) ∧
    (∀ reporter b, Report.parse ((ReceiverReport.mk reporter (some b)).write ++ rest) =
      .ok (.receiver ⟨reporter, some { b with cumulativeLost := carriedLoss b.cumulativeLost }⟩)) ∧
    ∀ reporter (reception : Reception) (now : Nat),
      let r := ReceiverReport.mk reporter (some (reception.reportBlock now).1)
      Report.parse (r.write ++ rest) = .ok (.receiver r) := by
  refine ⟨fun r => (Report.sender r).parse_write rest, fun reporter => (Report.receiver ⟨reporter, none⟩).parse_write rest,
    fun reporter b => (Report.receiver ⟨reporter, some b⟩).parse_write rest, fun reporter reception now => ?_⟩
  have hparse := (Report.receiver ⟨reporter, some (reception.reportBlock now).1⟩).parse_write rest
  rwa [Report.carried, Option.map_some, reception.carried_reportBlock] at hparse

end Rtcp
end VideoTransport
