import Mathlib
import VideoTransport.Proofs.Clock
import VideoTransport.Proofs.Exactness
import VideoTransport.Proofs.Issue
import VideoTransport.Proofs.Reports
import VideoTransport.Proofs.Sending
import VideoTransport.Proofs.Tidings
/-!
# Estimate — round-trip times

A sender estimates the round-trip time from any report about its stream whose two times are not zero.  It does not ask
whether it has sent the report that is said to be echoed (`Sender.estimates_iff`).  When it has, and the times are
honest, the estimate is less than one unit of 1/65536 s too low and less than two too high, whatever words turn over in
between (`Sender.estimate_near`).
-/
namespace VideoTransport

open Rtcp (WallTime)

/-! ## Which reports give an estimate -/

namespace Packetizer

theorem ssrc_next (p : Packetizer) (c : Cursor) : (p.next c).2.1.ssrc = p.ssrc := by
  cases hstep : c.step p.budget with
  | none => rw [next_of_none hstep]
  | some made =>
    obtain ⟨d, c'⟩ := made
    have hless := Cursor.step_weight p.budget_piece_pos hstep
    rw [next_of_some hstep]
    split
    · rfl
    · exact ssrc_next (p.startAt (p.nextSequence + 1)) c'
termination_by c.weight

theorem ssrc_begin (p : Packetizer) (u : AccessUnit) : (p.begin u).2.ssrc = p.ssrc := by
  obtain ⟨_, _, hsets⟩ := foldl_capture (AnnexB.nalUnits u.bytes) p
  show ((AnnexB.nalUnits u.bytes).foldl capture p).ssrc = p.ssrc
  rw [hsets]
  rfl

end Packetizer

namespace Sender

variable {σ : Type} {sink : Sink σ}

variable (sink) in
theorem ssrc_sendPackets : ∀ (fuel : Nat) (c : Packetizer.Cursor) (s : Sender) (st : σ),
    (sendPackets sink fuel c s st).sender.ssrc = s.ssrc
  | 0, _, _, _ => rfl
  | fuel + 1, c, s, st => by
    have hssrc := s.packetizer.ssrc_next c
    rcases hnext : s.packetizer.next c with ⟨_ | packet, p', c'⟩
    all_goals rw [hnext] at hssrc
    · rw [sendPackets_over hnext]
      exact hssrc
    · rcases hanswer : sink st packet with ⟨fault | _, st'⟩
      · rw [sendPackets_refused hnext hanswer]
        exact hssrc
      · rw [sendPackets_accepted hnext hanswer]
        exact (ssrc_sendPackets fuel c' _ st').trans hssrc

theorem ssrc_perform (x : Sender × σ) (d : Deed) : (perform sink x d).1.ssrc = x.1.ssrc := by
  cases d with
  | send u =>
    have hsent := ssrc_sendPackets sink ((x.1.packetizer.begin u).1.weight + 1) (x.1.packetizer.begin u).1
      { x.1 with packetizer := (x.1.packetizer.begin u).2 } x.2
    have hkept : (x.1.send sink x.2 u).sender.ssrc = (x.1.packetizer.begin u).2.ssrc := by
      unfold send
      simp only
      split <;> exact hsent
    exact hkept.trans (x.1.packetizer.ssrc_begin u)
  | build time rtpTimestamp => rfl
  | hear data now =>
    unfold perform processReport
    simp only
    repeat' split
    all_goals rfl

theorem ssrc_after : ∀ (deeds : List Deed) (x : Sender × σ), (after sink x deeds).1.ssrc = x.1.ssrc
  | [], _ => rfl
  | d :: rest, x => (ssrc_after rest (perform sink x d)).trans (ssrc_perform x d)

/-- A datagram brings an estimate, in the answer or in the counters. -/
def Estimates (s : Sender) (data : Bytes) (now : WallTime) : Prop :=
  (s.processReport data now).roundTrip.isSome = true ∨
    (s.processReport data now).sender.counters.roundTrip ≠ s.counters.roundTrip

/-- A datagram about stream `ssrc` that repeats a time and a delay. -/
def Repeats (ssrc : UInt32) (data : Bytes) (lastReport delay : UInt32) : Prop :=
  ∃ reporter block, Rtcp.Report.parse data = .ok (.receiver ⟨reporter, some block⟩) ∧ block.ssrc = ssrc ∧
    block.lastReport = lastReport ∧ block.delay = delay

variable {s : Sender} {data : Bytes} {now : WallTime} {lastReport delay : UInt32}

theorem roundTrip_of_repeats (h : Repeats s.ssrc data lastReport delay) :
    (s.processReport data now).roundTrip = Rtcp.roundTrip now.compact lastReport delay := by
  obtain ⟨reporter, block, hparse, hssrc, rfl, rfl⟩ := h
  unfold processReport
  simp only [hparse, hssrc, ne_eq, not_true_eq_false, if_false]
  split <;> rename_i hestimate <;> exact hestimate.symm

theorem isSome_roundTrip_iff (now lastReport delay : UInt32) :
    (Rtcp.roundTrip now lastReport delay).isSome = true ↔ lastReport ≠ 0 ∧ delay ≠ 0 := by
  unfold Rtcp.roundTrip
  by_cases htime : lastReport = 0
  · simp [htime]
  · by_cases hdelay : delay = 0
    · simp [hdelay]
    · simp [htime, hdelay]

/-- **One datagram** brings an estimate iff it is about the stream and repeats a time and a delay that are not zero. -/
theorem estimates_iff_repeats (s : Sender) (data : Bytes) (now : WallTime) :
    s.Estimates data now ↔ ∃ lastReport delay, lastReport ≠ 0 ∧ delay ≠ 0 ∧ Repeats s.ssrc data lastReport delay := by
  constructor
  · intro h
    unfold Estimates processReport at h
    cases hparse : Rtcp.Report.parse data with
    | error reason => simp [hparse, Counters.recordMalformed] at h
    | ok report =>
      obtain _ | ⟨reporter, _ | block⟩ := report
      · simp [hparse] at h
      · simp [hparse] at h
      by_cases hssrc : block.ssrc = s.ssrc
      · refine ⟨block.lastReport, block.delay, ?_⟩
        have hgiven : (Rtcp.roundTrip now.compact block.lastReport block.delay).isSome = true := by
          cases hestimate : Rtcp.roundTrip now.compact block.lastReport block.delay with
          | none => simp [hparse, hssrc, hestimate, Counters.setReception] at h
          | some ms => rfl
        obtain ⟨htime, hdelay⟩ := (isSome_roundTrip_iff _ _ _).1 hgiven
        exact ⟨htime, hdelay, reporter, block, hparse, hssrc, rfl, rfl⟩
      · simp [hparse, hssrc] at h
  · rintro ⟨lastReport, delay, htime, hdelay, hrepeats⟩
    refine .inl ?_
    rw [roundTrip_of_repeats hrepeats]
    exact (isSome_roundTrip_iff _ _ _).2 ⟨htime, hdelay⟩

/-- **Estimates come from any report about the stream.**  Whatever a sender has been made to do, a datagram brings an
estimate iff it is a receiver report whose first block is about the stream and repeats a time and a delay that are not
zero.  The estimate follows from these and the time alone.  The sender reports that have been built do not matter. -/
theorem estimates_iff (sink : Sink σ) (x : Sender × σ) (deeds : List Deed) (data : Bytes) (now : WallTime) :
    let s := (after sink x deeds).1
    (s.Estimates data now ↔
        ∃ lastReport delay, lastReport ≠ 0 ∧ delay ≠ 0 ∧ Repeats x.1.ssrc data lastReport delay) ∧
      ∀ lastReport delay, Repeats x.1.ssrc data lastReport delay →
        (s.processReport data now).roundTrip = Rtcp.roundTrip now.compact lastReport delay := by
  intro s
  have hssrc : s.ssrc = x.1.ssrc := ssrc_after deeds x
  rw [← hssrc]
  exact ⟨s.estimates_iff_repeats data now, fun _ _ hrepeats => roundTrip_of_repeats hrepeats⟩

/-- The compact times of the sender reports that are built in a run. -/
def built : List Deed → List UInt32
  | [] => []
  | .build time _ :: rest => time.compact :: built rest
  | _ :: rest => built rest

/-- A report that repeats the time 1 s, after a delay of 1 s. -/
def forged (ssrc : UInt32) : Rtcp.ReceiverReport := ⟨9, some ⟨ssrc, 0, 0, 0, 0, 0x10000, 0x10000⟩⟩

/-- The only sender report that has been built has the time 2 s, but at 3 s the forged report brings an estimate of
1 s. -/
theorem believes_forged : ∃ s, create { ssrc := some 1 } .identity 0 0 = .ok s ∧
    let deeds := [.build ⟨2, 0⟩ 0]
    let x := after picky (s, 0) deeds
    x.1.Estimates (forged 1).write ⟨3, 0⟩ ∧ Repeats 1 (forged 1).write 0x10000 0x10000 ∧ 0x10000 ∉ built deeds ∧
      (x.1.processReport (forged 1).write ⟨3, 0⟩).roundTrip.map Float.toBits = some (1000.0 : Float).toBits :=
  ⟨_, rfl, .inl (by decide +kernel), ⟨9, _, rfl, rfl, rfl, rfl⟩, by decide, by decide +kernel⟩

end Sender

/-! ## How near an estimate is -/

namespace Rtcp

variable {a b : WallTime} {hold : Nat}

/-- **The units of an estimate**, in terms of 2^-32 s and nanoseconds. -/
theorem roundTripUnits_near (h : (b.ticks - a.ticks).toNat ≤ 2 ^ 48 - 2 ^ 16) (hheld : nanosPerSecond ≤ hold * 65536)
    (hwithin : hold * 2 ^ 32 ≤ (b.ticks - a.ticks).toNat * nanosPerSecond) :
    compactDelay hold ≠ 0 ∧
      let u := (roundTripUnits b.compact a.compact (compactDelay hold)).toNat
      (b.ticks - a.ticks).toNat * nanosPerSecond < (u + 1) * 2 ^ 16 * nanosPerSecond + hold * 2 ^ 32 ∧
        u * 2 ^ 16 * nanosPerSecond + hold * 2 ^ 32 <
          (b.ticks - a.ticks).toNat * nanosPerSecond + 2 * 2 ^ 16 * nanosPerSecond := by
  obtain ⟨hlow, hhigh, hleast⟩ := toNat_compact_sub h
  have hdelay : (compactDelay hold).toNat = hold * 65536 / nanosPerSecond := by
    refine toNat_compactDelay ?_
    rw [nanosPerSecond] at hwithin ⊢
    omega
  have hle : ¬b.compact - a.compact < compactDelay hold := by
    rw [UInt32.lt_iff_toNat_lt, hdelay]
    rw [nanosPerSecond] at hwithin ⊢
    omega
  have hunits : (roundTripUnits b.compact a.compact (compactDelay hold)).toNat =
      (b.compact - a.compact).toNat - hold * 65536 / nanosPerSecond := by
    rw [roundTripUnits, if_neg hle, UInt32.toNat_sub_of_le _ _ (UInt32.not_lt.1 hle), hdelay]
  refine ⟨?_, ?_⟩
  · rw [ne_eq, ← UInt32.toNat_inj, hdelay, nanosPerSecond, UInt32.toNat_zero]
    rw [nanosPerSecond] at hheld
    omega
  · intro u
    rw [show u = _ from hunits]
    rw [nanosPerSecond] at hwithin ⊢
    omega

/-- The time from `a` to `b` less the time that an echo was held back, in units of 1/65536 s. -/
def networkUnits (a b : WallTime) (hold : Nat) : ℚ :=
  ((b.ticks - a.ticks).toNat / 2 ^ 32 - hold / nanosPerSecond) * 65536

theorem networkUnits_near (h : (b.ticks - a.ticks).toNat ≤ 2 ^ 48 - 2 ^ 16)
    (hheld : (1 / 65536 : ℚ) ≤ hold / nanosPerSecond)
    (hwithin : (hold / nanosPerSecond : ℚ) ≤ (b.ticks - a.ticks).toNat / 2 ^ 32) :
    compactDelay hold ≠ 0 ∧ 0 ≤ networkUnits a b hold ∧
      let u := (roundTripUnits b.compact a.compact (compactDelay hold)).toNat
      networkUnits a b hold - 1 < u ∧ (u : ℚ) < networkUnits a b hold + 2 := by
  have hsecond : (0 : ℚ) < nanosPerSecond := by norm_num [nanosPerSecond]
  have hheld' : nanosPerSecond ≤ hold * 65536 := by
    rw [div_le_div_iff₀ (by norm_num) hsecond, one_mul] at hheld
    exact_mod_cast hheld
  have hwithin' : hold * 2 ^ 32 ≤ (b.ticks - a.ticks).toNat * nanosPerSecond := by
    rw [div_le_div_iff₀ hsecond (by norm_num)] at hwithin
    exact_mod_cast hwithin
  obtain ⟨hdelay, hlow, hhigh⟩ := roundTripUnits_near h hheld' hwithin'
  refine ⟨hdelay, mul_nonneg (sub_nonneg.2 hwithin) (by norm_num), ?_⟩
  intro u
  have hunits : networkUnits a b hold * nanosPerSecond * 2 ^ 16 =
      (b.ticks - a.ticks).toNat * nanosPerSecond - hold * 2 ^ 32 := by
    rw [networkUnits]
    field_simp
    ring
  have hlow' : ((b.ticks - a.ticks).toNat * nanosPerSecond : ℚ) <
      (u + 1) * 2 ^ 16 * nanosPerSecond + hold * 2 ^ 32 := by
    exact_mod_cast hlow
  have hhigh' : (u * 2 ^ 16 * nanosPerSecond + hold * 2 ^ 32 : ℚ) <
      (b.ticks - a.ticks).toNat * nanosPerSecond + 2 * 2 ^ 16 * nanosPerSecond := by
    exact_mod_cast hhigh
  rw [nanosPerSecond] at hunits hlow' hhigh'
  push_cast at hunits hlow' hhigh'
  constructor <;> linarith

open Decimal

theorem holds_thousand : Holds 1000.0 1000 0 := ⟨43, by decide, by decide, by decide, by decide, rfl⟩

theorem holds_unitsPerSecond : Holds 65536.0 1 16 := ⟨52, by decide, by decide, by decide, by decide, rfl⟩

theorem value_milliseconds (u : UInt32) :
    (Reading.ofBits (u.toFloat * 1000.0 / 65536.0).toBits).value? = some (u.toNat * 1000 / 65536 : ℚ) := by
  by_cases hu : u = 0
  · have hzero :
        Reading.ofBits ((0 : UInt32).toFloat * 1000.0 / 65536.0).toBits = Reading.ofBits (0.0 : Float).toBits := rfl
    have hvalue : (Reading.ofBits (0.0 : Float).toBits).value? = some 0 := by
      show (Reading.finite false ⟨0, -1074, false⟩).value? = some 0
      simp [Reading.value?]
    rw [hu, hzero, hvalue]
    simp
  · have hlt := u.toNat_lt
    have hproduct := (holds_ofUInt32 hu).mul holds_thousand (by omega) (by decide) (by decide)
    have hquotient := hproduct.shift holds_unitsPerSecond (by decide) (by decide)
    rw [hquotient.value]
    norm_num [zpow_neg, div_eq_mul_inv]

theorem SenderReport.isReport_write (r : SenderReport) : isReport r.write = true := rfl

end Rtcp

namespace Consumer

/-- A report that a sender has written is taken, by whichever way it comes. -/
def takesReport (r : Rtcp.SenderReport) (arrived : Nat) : Move → Prop
  | .report data now => data = r.write ∧ now = arrived
  | .act (.hand (.any data _ now)) => data = r.write ∧ now = arrived
  | _ => False

theorem tiding_of_takesReport {r : Rtcp.SenderReport} {arrived : Nat} :
    ∀ {m : Move}, takesReport r arrived m → m.tiding = .report r arrived := by
  have hread : Tiding.ofReport r.write arrived = .report r arrived := by
    have hparse := r.parse_write []
    rw [List.append_nil] at hparse
    unfold Tiding.ofReport
    rw [hparse]
  rintro (⟨input | id⟩ | ⟨data, now⟩ | ⟨reporter, now⟩ | _) h
  · cases input with
    | media datagram arrival => exact h.elim
    | any datagram arrival now =>
      obtain ⟨rfl, rfl⟩ := h
      rw [Move.tiding, if_pos r.isReport_write, hread]
  · exact h.elim
  · obtain ⟨rfl, rfl⟩ := h
    exact hread
  · exact h.elim
  · exact h.elim

/-- The report on a source whose last sender report came `hold` nanoseconds ago. -/
theorem buildReport_of_lastReport {r : Receiver} {s compact : UInt32} {arrived : Nat} (hsource : r.source = some s)
    (hlast : r.reception.lastReport = some (compact, arrived)) (reporter : UInt32) (hold : Nat) :
    ∃ block : Rtcp.ReportBlock, (r.buildReport reporter (arrived + hold)).1 = some ⟨reporter, some block⟩ ∧
      block.ssrc = s ∧ block.lastReport = compact ∧ block.delay = Rtcp.compactDelay hold := by
  have hgiven : r.reception.hasReport = true := by
    unfold Reception.hasReport
    rw [hlast]
    rfl
  unfold Receiver.buildReport
  rw [if_pos hgiven]
  refine ⟨(r.reception.reportBlock (arrived + hold)).1, rfl, ?_⟩
  unfold Reception.reportBlock
  rw [hlast, show r.reception.source = some s from hsource]
  simp

end Consumer

namespace Sender

variable {σ : Type}

open Decimal (Reading)

/-- **Estimates are near the truth.**  A sender builds a report at `a`.  A receiver of its stream takes it, and `hold`
nanoseconds later, having taken no other, it builds a report in turn.  The sender takes that at `b`, whatever it has
been made to do in between.  Then it estimates a whole number of units of 1/65536 s, in milliseconds without error, that
is less than one below the true time on the network and less than two above it. -/
theorem estimate_near (s : Sender) {a b : WallTime} (rtpTimestamp : UInt32) (c : Consumer) {m : Consumer.Move}
    {arrived : Nat} (hm : Consumer.takesReport (s.buildReport a rtpTimestamp).1 arrived m) {moves : List Consumer.Move}
    (hmoves : ∀ m' ∈ moves, m'.tiding.stamp? = none)
    (hsource : ((c.move m).moved moves).receiver.source = some s.ssrc) (ha : a.compact ≠ 0) {hold : Nat}
    (hheld : (1 / 65536 : ℚ) ≤ hold / Rtcp.nanosPerSecond)
    (hwithin : (hold / Rtcp.nanosPerSecond : ℚ) ≤ (b.ticks - a.ticks).toNat / 2 ^ 32)
    (hturn : (b.ticks - a.ticks).toNat ≤ 2 ^ 48 - 2 ^ 16) (reporter : UInt32) (sink : Sink σ) (st : σ)
    (deeds : List Deed) :
    let receiver := ((c.move m).moved moves).receiver
    let sender := (after sink ((s.buildReport a rtpTimestamp).2, st) deeds).1
    let r := Rtcp.networkUnits a b hold
    ∃ report ms, ∃ u : Nat, (receiver.buildReport reporter (arrived + hold)).1 = some report ∧
      (sender.processReport report.write b).roundTrip = some ms ∧
      (Reading.ofBits ms.toBits).value? = some (u * 1000 / 65536 : ℚ) ∧ 0 ≤ r ∧ r - 1 < u ∧ u < r + 2 := by
  intro receiver sender r
  have hlast : receiver.reception.lastReport = some (a.compact, arrived) := by
    have hquiet : (moves.map Consumer.Move.tiding).filterMap Tiding.stamp? = [] := by
      rw [List.filterMap_map, List.filterMap_eq_nil_iff]
      exact hmoves
    show ((c.move m).moved moves).receiver.reception.lastReport = _
    rw [Consumer.reception_moved, Reception.lastReport_learnAll, hquiet, Consumer.reception_move,
      Consumer.tiding_of_takesReport hm]
    rfl
  obtain ⟨block, hbuilt, hssrc, htime, hdelay⟩ :=
    Consumer.buildReport_of_lastReport hsource hlast reporter hold
  obtain ⟨hne, hnonneg, hnear⟩ := Rtcp.networkUnits_near hturn hheld hwithin
  have hrepeats : Repeats sender.ssrc (Rtcp.ReceiverReport.write ⟨reporter, some block⟩) a.compact
      (Rtcp.compactDelay hold) := by
    have hparse := Rtcp.ReceiverReport.parse_write ⟨reporter, some block⟩ []
    rw [List.append_nil] at hparse
    have hsame : sender.ssrc = s.ssrc := ssrc_after deeds ((s.buildReport a rtpTimestamp).2, st)
    exact ⟨reporter, _, hparse, hssrc.trans hsame.symm, htime, hdelay⟩
  refine ⟨_, _, _, hbuilt, ?_, Rtcp.value_milliseconds _, hnonneg, hnear⟩
  rw [roundTrip_of_repeats hrepeats, Rtcp.roundTrip, if_neg (by simp [ha, hne])]

/-- A second passes, in which the clock begins anew, and the echo is held back for a quarter of it. -/
theorem estimate_near_turn : ∃ s r, create { ssrc := some 7 } .identity 0 0 = .ok s ∧
    Receiver.create {} .identity = .ok r ∧
    let a : WallTime := ⟨0xffffffff, 0x80000000⟩
    let b : WallTime := ⟨0, 0x80000000⟩
    let c : Consumer := { receiver := r }
    let taken := c.move (.report (s.buildReport a 0).1.write 0)
    let receiver := (taken.moved [Consumer.wholeMove 0]).receiver
    ∃ report ms, ∃ u : Nat, (receiver.buildReport 9 (0 + 250000000)).1 = some report ∧
      ((after picky ((s.buildReport a 0).2, 0) [.build ⟨1, 0⟩ 0]).1.processReport report.write b).roundTrip = some ms ∧
      (Decimal.Reading.ofBits ms.toBits).value? = some (u * 1000 / 65536 : ℚ) ∧
      (49152 : ℚ) - 1 < u ∧ (u : ℚ) < 49152 + 2 := by
  obtain ⟨s, hs, hssrc⟩ : ∃ s, create { ssrc := some 7 } .identity 0 0 = .ok s ∧ s.ssrc = 7 := ⟨_, rfl, rfl⟩
  refine ⟨s, _, hs, rfl, ?_⟩
  intro a b c taken receiver
  have hm : Consumer.takesReport (s.buildReport a 0).1 0 (.report (s.buildReport a 0).1.write 0) := ⟨rfl, rfl⟩
  have hticks : (b.ticks - a.ticks).toNat = 2 ^ 32 := by decide
  have hunits : Rtcp.networkUnits a b 250000000 = 49152 := by
    rw [Rtcp.networkUnits, hticks, Rtcp.nanosPerSecond]
    norm_num
  have hmoves : ∀ m ∈ [Consumer.wholeMove 0], m.tiding.stamp? = none := by decide +kernel
  have hfirst : (Consumer.wholeMove 0).tiding = .packet ⟨7, 0, 3000, 0⟩ := Tiding.ofMedia_write _ _ _
  have hsource : receiver.source = some s.ssrc := by
    have hmoved := Consumer.reception_moved [Consumer.wholeMove 0] taken
    rw [List.map_singleton, hfirst, Consumer.reception_move c, Consumer.tiding_of_takesReport hm] at hmoved
    rw [Receiver.source, hmoved, hssrc]
    rfl
  have hheld : (1 / 65536 : ℚ) ≤ (250000000 : Nat) / Rtcp.nanosPerSecond := by norm_num [Rtcp.nanosPerSecond]
  have hwithin : ((250000000 : Nat) / Rtcp.nanosPerSecond : ℚ) ≤ (b.ticks - a.ticks).toNat / 2 ^ 32 := by
    rw [hticks, Rtcp.nanosPerSecond]
    norm_num
  obtain ⟨report, ms, u, hbuilt, hms, hvalue, -, hlow, hhigh⟩ := estimate_near s 0 c hm hmoves hsource
    (by decide) hheld hwithin (by rw [hticks]; decide) 9 picky 0 [.build ⟨1, 0⟩ 0]
  rw [hunits] at hlow hhigh
  exact ⟨report, ms, u, hbuilt, hms, hvalue, hlow, hhigh⟩

end Sender
end VideoTransport
