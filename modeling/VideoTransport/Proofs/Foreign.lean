import Mathlib.Data.List.Induction
import VideoTransport.Proofs.Tidings
/-!
# Foreign — traffic of other sources

A reception reports on the source that it met first, but once it has met it no longer asks where packets and sender
reports come from.  So packets and sender reports of other sources that are inserted into a run show in its reports.
They stay unnoticed exactly if whenever a report is given no packet has been inserted yet, and the sender report that
came last seems to be the same (`Consumer.reports_full`).
-/
namespace VideoTransport

/-- Packets and sender reports of other sources. -/
def Tiding.isForeign (source : UInt32) : Tiding → Bool
  | .packet p => p.source != source
  | .report r _ => r.ssrc != source
  | _ => false

namespace Reception

/-- What is repeated of a sender report, given its compact time and when it came. -/
def echo (heard : Option (UInt32 × Nat)) (now : Nat) : Option (UInt32 × UInt32) :=
  heard.map fun (compact, arrived) => (compact, Rtcp.compactDelay (now - arrived))

def unechoed (r : Reception) : Reception := { r with lastReport := none }

variable {r r' : Reception}

theorem hasReport_eq (r : Reception) (now : Nat) : r.hasReport = (echo r.lastReport now).isSome := by
  simp [hasReport, echo]

theorem record_unechoed (r : Reception) (source : UInt32) (number : Serial) (mediaTime arrival : UInt32) :
    (r.record source number mediaTime arrival).unechoed = r.unechoed.record source number mediaTime arrival :=
  (record_revise id (fun _ => none) r source number mediaTime arrival).symm

/-- **Receptions that differ only in the last sender report** go on so, if both give reports or neither does. -/
theorem learn_unechoed (h : r.unechoed = r'.unechoed) {t : Tiding}
    (hasked : ∀ now, t = .asked now → r.hasReport = r'.hasReport) : (r.learn t).unechoed = (r'.learn t).unechoed := by
  cases t with
  | nothing => exact h
  | packet p => rw [learn, learn, record_unechoed, record_unechoed, h]
  | report report arrived => exact h
  | asked now =>
    have hreported : (r.reportBlock now).2.unechoed = (r'.reportBlock now).2.unechoed := by
      show (r.unechoed.reportBlock now).2 = (r'.unechoed.reportBlock now).2
      rw [h]
    rw [learn, learn, hasked now rfl]
    split
    · exact hreported
    · exact h

/-- The last sender report shows only in what is repeated of it. -/
theorem reportBlock_eq (r : Reception) (now : Nat) :
    (r.reportBlock now).1 =
      { (r.unechoed.reportBlock now).1 with
        lastReport := ((echo r.lastReport now).getD (0, 0)).1, delay := ((echo r.lastReport now).getD (0, 0)).2 } := by
  unfold echo reportBlock
  cases r.lastReport <;> rfl

end Reception

theorem Rtcp.clampLost_of_mem {n : Int} (h : -0x800000 < n ∧ n < 0x7fffff) (m : Int) :
    Rtcp.clampLost m = Rtcp.clampLost n ↔ m = n := by
  unfold Rtcp.clampLost
  omega

namespace Receiver

open Reception (echo)

variable {r r' : Receiver} {s : UInt32} {reporter : UInt32} {now : Nat}

theorem buildReport_fst (r : Receiver) (reporter : UInt32) (now : Nat) :
    (r.buildReport reporter now).1 =
      if r.reception.hasReport then some ⟨reporter, some (r.reception.reportBlock now).1⟩ else none := by
  unfold buildReport
  split <;> rfl

/-- A report depends on what is repeated of a sender report and on the rest of the reception. -/
theorem buildReport_congr (h : r.reception.unechoed = r'.reception.unechoed)
    (hecho : echo r.reception.lastReport now = echo r'.reception.lastReport now) :
    (r.buildReport reporter now).1 = (r'.buildReport reporter now).1 := by
  rw [buildReport_fst, buildReport_fst, r.reception.hasReport_eq now, r'.reception.hasReport_eq now,
    r.reception.reportBlock_eq, r'.reception.reportBlock_eq, h, hecho]

/-- Reports that are the same repeat the same of a sender report, and the same loss follows from them. -/
theorem eq_of_buildReport_eq (hs : r.source = some s) (hs' : r'.source = some s)
    (hbase : r.reception.base = r'.reception.base)
    (h : (r.buildReport reporter now).1 = (r'.buildReport reporter now).1) :
    echo r.reception.lastReport now = echo r'.reception.lastReport now ∧
      (r.reception.hasReport = true →
        r.reception.expected = r'.reception.expected ∧
          Rtcp.clampLost r.reception.cumulativeLost = Rtcp.clampLost r'.reception.cumulativeLost) := by
  rw [buildReport_fst, buildReport_fst, r.reception.hasReport_eq now, r'.reception.hasReport_eq now] at h
  rw [r.reception.hasReport_eq now]
  cases hecho : echo r.reception.lastReport now with
  | none =>
    cases hecho' : echo r'.reception.lastReport now with
    | none => exact ⟨rfl, fun hgiven => nomatch hgiven⟩
    | some told' => simp [hecho, hecho'] at h
  | some told =>
    cases hecho' : echo r'.reception.lastReport now with
    | none => simp [hecho, hecho'] at h
    | some told' =>
      have hblock : (r.reception.reportBlock now).1 = (r'.reception.reportBlock now).1 := by
        simpa [hecho, hecho'] using h
      have hhighest : r.reception.extendedHighest = r'.reception.extendedHighest :=
        congrArg Rtcp.ReportBlock.extendedHighest hblock
      refine ⟨?_, fun _ => ⟨?_, congrArg Rtcp.ReportBlock.cumulativeLost hblock⟩⟩
      · rw [r.reception.reportBlock_eq, r'.reception.reportBlock_eq, hecho, hecho'] at hblock
        obtain ⟨compact, delay⟩ := told
        obtain ⟨compact', delay'⟩ := told'
        have hcompact : compact = compact' := congrArg Rtcp.ReportBlock.lastReport hblock
        have hdelay : delay = delay' := congrArg Rtcp.ReportBlock.delay hblock
        rw [hcompact, hdelay]
      · unfold Reception.expected
        rw [show r.reception.source = some s from hs, show r'.reception.source = some s from hs', hhighest, hbase]

end Receiver

/-! ## Runs with insertions -/

namespace Consumer

open Receiver (buildReport_fst buildReport_congr eq_of_buildReport_eq)
open Reception (echo)

/-- A move of a run, which may have been inserted. -/
structure Entry where
  move : Move
  inserted : Bool := false

/-- The run with what has been inserted. -/
def full (run : List Entry) : List Move := run.map Entry.move

/-- The run without it. -/
def bare (run : List Entry) : List Move := (run.filter fun e => !e.inserted).map Entry.move

def asked (c : Consumer) : Move → List (Option Rtcp.ReceiverReport)
  | .build reporter now => [(c.receiver.buildReport reporter now).1]
  | _ => []

/-- All that is answered in a run. -/
def reports : Consumer → List Move → List (Option Rtcp.ReceiverReport)
  | _, [] => []
  | c, m :: rest => c.asked m ++ (c.move m).reports rest

def receptionAfter (c : Consumer) (moves : List Move) : Reception := (c.moved moves).receiver.reception

/-- The sender report that came last: its compact time, and when it came. -/
def lastHeard (c : Consumer) (moves : List Move) : Option (UInt32 × Nat) :=
  ((moves.map Move.tiding).filterMap Tiding.stamp?).getLast?.or c.receiver.reception.lastReport

/-- Whether a report is asked for after the first part of a run. -/
def AsksAfter (run earlier : List Entry) (now : Nat) : Prop :=
  ∃ reporter later, run = earlier ++ ⟨.build reporter now, false⟩ :: later

/-- The sender report that came last seems to be the same with the insertions as without, and if there is any, no packet
has been inserted yet. -/
def UnnoticedAt (c : Consumer) (earlier : List Entry) (now : Nat) : Prop :=
  echo (c.lastHeard (full earlier)) now = echo (c.lastHeard (bare earlier)) now ∧
    ((c.lastHeard (full earlier)).isSome = true →
      ∀ e ∈ earlier, e.inserted = true → e.move.tiding.isPacket = false)

/-- The insertions are unnoticed whenever a report is asked for. -/
def GoesUnnoticed (c : Consumer) (run : List Entry) : Prop :=
  ∀ earlier now, AsksAfter run earlier now → c.UnnoticedAt earlier now

def InsertsForeign (s : UInt32) (run : List Entry) : Prop :=
  ∀ e ∈ run, e.inserted = true → e.move.tiding.isForeign s = true

instance (s : UInt32) (run : List Entry) : Decidable (InsertsForeign s run) :=
  inferInstanceAs (Decidable (∀ e ∈ run, e.inserted = true → e.move.tiding.isForeign s = true))

/-- Whenever a report is asked for, the loss without the insertions is neither the least nor the greatest that
twenty-four bits hold, nor beyond them. -/
def LosesFew (c : Consumer) (run : List Entry) : Prop :=
  ∀ earlier now, AsksAfter run earlier now →
    -0x800000 < (c.receptionAfter (bare earlier)).cumulativeLost ∧
      (c.receptionAfter (bare earlier)).cumulativeLost < 0x7fffff

variable {c : Consumer} {s : UInt32} {run earlier : List Entry} {e : Entry} {now : Nat}

theorem receptionAfter_eq (c : Consumer) (moves : List Move) :
    c.receptionAfter moves = c.receiver.reception.learnAll (moves.map Move.tiding) := reception_moved moves c

theorem lastReport_receptionAfter (c : Consumer) (moves : List Move) :
    (c.receptionAfter moves).lastReport = c.lastHeard moves := by
  rw [receptionAfter_eq, Reception.lastReport_learnAll]
  rfl

/-! ### One move more -/

theorem receptionAfter_append_singleton (c : Consumer) (moves : List Move) (m : Move) :
    c.receptionAfter (moves ++ [m]) = (c.receptionAfter moves).learn m.tiding := by
  rw [receptionAfter_eq, receptionAfter_eq, List.map_append, Reception.learnAll_append]
  rfl

theorem reports_append_singleton : ∀ (moves : List Move) (c : Consumer) (m : Move),
    c.reports (moves ++ [m]) = c.reports moves ++ (c.moved moves).asked m
  | [], c, m => by simp [reports, moved]
  | first :: rest, c, m => by
    rw [List.cons_append, reports, reports, reports_append_singleton rest, List.append_assoc]
    rfl

theorem full_append_singleton (run : List Entry) (e : Entry) : full (run ++ [e]) = full run ++ [e.move] := by
  simp [full]

theorem bare_append_inserted (h : e.inserted = true) : bare (run ++ [e]) = bare run := by
  simp [bare, h]

theorem bare_append_kept (h : e.inserted = false) : bare (run ++ [e]) = bare run ++ [e.move] := by
  simp [bare, h]

theorem asksAfter_append_singleton_iff :
    AsksAfter (run ++ [e]) earlier now ↔
      AsksAfter run earlier now ∨ earlier = run ∧ ∃ reporter, e = ⟨.build reporter now, false⟩ := by
  constructor
  · rintro ⟨reporter, later, h⟩
    cases later using List.reverseRecOn with
    | nil =>
      obtain ⟨hearlier, he⟩ := List.append_inj' h rfl
      exact .inr ⟨hearlier.symm, reporter, (List.singleton_inj.1 he)⟩
    | append_singleton later last =>
      rw [← List.cons_append, ← List.append_assoc] at h
      exact .inl ⟨reporter, later, (List.append_inj' h rfl).1⟩
  · rintro (⟨reporter, later, rfl⟩ | ⟨rfl, reporter, rfl⟩)
    · exact ⟨reporter, later ++ [e], by rw [List.append_assoc, List.cons_append]⟩
    · exact ⟨reporter, [], rfl⟩

theorem GoesUnnoticed.before (h : c.GoesUnnoticed (run ++ [e])) : c.GoesUnnoticed run :=
  fun earlier now hasks => h earlier now (asksAfter_append_singleton_iff.2 (.inl hasks))

theorem LosesFew.before (h : c.LosesFew (run ++ [e])) : c.LosesFew run :=
  fun earlier now hasks => h earlier now (asksAfter_append_singleton_iff.2 (.inl hasks))

theorem InsertsForeign.before (h : InsertsForeign s (run ++ [e])) : InsertsForeign s run :=
  fun d hd => h d (List.mem_append_left [e] hd)

theorem InsertsForeign.last (h : InsertsForeign s (run ++ [e])) (hinserted : e.inserted = true) :
    e.move.tiding.isForeign s = true := h e (List.mem_append_right run List.mem_cons_self) hinserted

theorem asksAfter_kept {reporter : UInt32} (hmove : e.move = .build reporter now) (hkept : e.inserted = false) :
    AsksAfter (run ++ [e]) run now :=
  asksAfter_append_singleton_iff.2 (.inr ⟨rfl, reporter, by rw [← hmove, ← hkept]⟩)

theorem build_of_tiding : ∀ {m : Move}, m.tiding = .asked now → ∃ reporter, m = .build reporter now
  | .build reporter _, h => ⟨reporter, by rw [Move.tiding] at h; cases h; rfl⟩
  | .act (.hand (.media datagram arrival)), h => by
    rw [Move.tiding, Tiding.ofMedia] at h
    split at h <;> cases h
  | .act (.hand (.any datagram arrival _)), h => by
    rw [Move.tiding, Tiding.ofMedia, Tiding.ofReport] at h
    repeat' split at h
    all_goals cases h
  | .report data _, h => by
    rw [Move.tiding, Tiding.ofReport] at h
    split at h <;> cases h

theorem asked_of_foreign {m : Move} (h : m.tiding.isForeign s = true) (c : Consumer) : c.asked m = [] := by
  cases m with
  | build reporter now => cases h
  | act | report | reset => rfl

/-! ### What insertions change -/

def insertedPackets (run : List Entry) : Nat := run.countP fun e => e.inserted && e.move.tiding.isPacket

theorem countP_full (run : List Entry) :
    ((full run).map Move.tiding).countP Tiding.isPacket =
      ((bare run).map Move.tiding).countP Tiding.isPacket + insertedPackets run := by
  induction run with
  | nil => rfl
  | cons e rest ih =>
    unfold full bare insertedPackets at ih ⊢
    by_cases hinserted : e.inserted = true
    · simp only [List.map_cons, List.filter_cons, List.countP_cons, hinserted, Bool.not_true, Bool.true_and,
        Bool.false_eq_true, if_false, ih]
      omega
    · simp only [List.map_cons, List.filter_cons, List.countP_cons, Bool.eq_false_iff.2 hinserted, Bool.not_false,
        Bool.false_and, Bool.false_eq_true, if_true, if_false, ih]
      omega

/-- **Inserted packets are counted**, whoever sent them. -/
theorem received_full (hs : c.receiver.source = some s) (run : List Entry) :
    (c.receptionAfter (full run)).received =
      (c.receptionAfter (bare run)).received + UInt64.ofNat (insertedPackets run) := by
  have hreceived (moves : List Move) := (Reception.learnAll_keeps (moves.map Move.tiding) hs).2.2
  rw [receptionAfter_eq, receptionAfter_eq, hreceived, hreceived, countP_full, UInt64.ofNat_add, UInt64.add_assoc]

theorem source_receptionAfter (hs : c.receiver.source = some s) (moves : List Move) :
    (c.receptionAfter moves).source = some s ∧ (c.receptionAfter moves).base = c.receiver.reception.base := by
  obtain ⟨hsource, hbase, -⟩ := Reception.learnAll_keeps (moves.map Move.tiding) hs
  rw [receptionAfter_eq]
  exact ⟨hsource, hbase⟩

/-- Sender reports that are inserted unnoticed change nothing but the last sender report. -/
theorem unechoed_full (hforeign : InsertsForeign s run) (hunnoticed : c.GoesUnnoticed run)
    (hnone : ∀ e ∈ run, e.inserted = true → e.move.tiding.isPacket = false) :
    (c.receptionAfter (full run)).unechoed = (c.receptionAfter (bare run)).unechoed := by
  induction run using List.reverseRecOn with
  | nil => rfl
  | append_singleton run e ih =>
    have ih := ih hforeign.before hunnoticed.before fun d hd => hnone d (List.mem_append_left [e] hd)
    rw [full_append_singleton, receptionAfter_append_singleton]
    cases hinserted : e.inserted with
    | true =>
      have hother := hforeign.last hinserted
      have hpacket := hnone e (List.mem_append_right run List.mem_cons_self) hinserted
      rw [bare_append_inserted hinserted]
      cases htiding : e.move.tiding with
      | report r arrived => exact ih
      | packet p =>
        rw [htiding] at hpacket
        cases hpacket
      | nothing | asked =>
        rw [htiding] at hother
        cases hother
    | false =>
      rw [bare_append_kept hinserted, receptionAfter_append_singleton]
      -- A report that is given begins a new interval, so both must give one or neither.
      refine Reception.learn_unechoed ih fun now htiding => ?_
      obtain ⟨reporter, hmove⟩ := build_of_tiding htiding
      rw [Reception.hasReport_eq _ now, Reception.hasReport_eq _ now, lastReport_receptionAfter,
        lastReport_receptionAfter, (hunnoticed run now (asksAfter_kept hmove hinserted)).1]

/-- **A report at which the insertions are unnoticed** is the same without them. -/
theorem build_full_of_unnoticed (hforeign : InsertsForeign s run) (hunnoticed : c.GoesUnnoticed run)
    (h : c.UnnoticedAt run now) (reporter : UInt32) :
    ((c.moved (full run)).receiver.buildReport reporter now).1 =
      ((c.moved (bare run)).receiver.buildReport reporter now).1 := by
  obtain ⟨hecho, hnone⟩ := h
  rw [← lastReport_receptionAfter, ← lastReport_receptionAfter] at hecho
  rw [← lastReport_receptionAfter] at hnone
  by_cases hgiven : (c.receptionAfter (full run)).hasReport = true
  · exact buildReport_congr (unechoed_full hforeign hunnoticed (hnone hgiven)) hecho
  · have hgiven' : (c.receptionAfter (bare run)).hasReport = false := by
      rw [Reception.hasReport_eq _ now, ← hecho, ← Reception.hasReport_eq]
      exact Bool.eq_false_iff.2 hgiven
    rw [buildReport_fst, buildReport_fst]
    exact (if_neg hgiven).trans (if_neg (Bool.eq_false_iff.1 hgiven')).symm

/-- **A report that is the same without the insertions** is one at which they are unnoticed. -/
theorem unnoticedAt_of_build_full (hs : c.receiver.source = some s) (hshort : run.length < 2 ^ 64)
    (hlost : -0x800000 < (c.receptionAfter (bare run)).cumulativeLost ∧
      (c.receptionAfter (bare run)).cumulativeLost < 0x7fffff) {reporter : UInt32}
    (h : ((c.moved (full run)).receiver.buildReport reporter now).1 =
      ((c.moved (bare run)).receiver.buildReport reporter now).1) :
    c.UnnoticedAt run now := by
  obtain ⟨hsource, hbase⟩ := source_receptionAfter hs (full run)
  obtain ⟨hsource', hbase'⟩ := source_receptionAfter hs (bare run)
  obtain ⟨hecho, htold⟩ := eq_of_buildReport_eq hsource hsource' (hbase.trans hbase'.symm) h
  unfold UnnoticedAt
  rw [← lastReport_receptionAfter, ← lastReport_receptionAfter]
  refine ⟨hecho, fun hgiven e he hinserted => ?_⟩
  obtain ⟨hexpected, hclamped⟩ := htold hgiven
  -- What is expected is the same and what is lost is the same, so what has been received is.
  have hlosses := (Rtcp.clampLost_of_mem hlost _).1 hclamped
  have hsame : (c.receptionAfter (full run)).received = (c.receptionAfter (bare run)).received := by
    have hwords := congrArg Int64.toUInt64 (Int64.toInt_inj.1 hlosses)
    rw [UInt64.toUInt64_toInt64, UInt64.toUInt64_toInt64, hexpected] at hwords
    exact (UInt64.sub_right_inj _).1 hwords
  rw [received_full hs, UInt64.add_eq_left, ← UInt64.toNat_inj, UInt64.toNat_ofNat', UInt64.toNat_zero] at hsame
  have hle : insertedPackets run ≤ run.length := List.countP_le_length
  have hzero : insertedPackets run = 0 := by omega
  have hnot := (List.countP_eq_zero.1 hzero) e he
  simpa [hinserted] using hnot

theorem reports_of_unnoticed (hforeign : InsertsForeign s run) (hunnoticed : c.GoesUnnoticed run) :
    c.reports (full run) = c.reports (bare run) := by
  induction run using List.reverseRecOn with
  | nil => rfl
  | append_singleton run e ih =>
    have ih := ih hforeign.before hunnoticed.before
    rw [full_append_singleton, reports_append_singleton]
    cases hinserted : e.inserted with
    | true =>
      have hother := hforeign.last hinserted
      rw [bare_append_inserted hinserted, asked_of_foreign hother, List.append_nil, ih]
    | false =>
      rw [bare_append_kept hinserted, reports_append_singleton, ih]
      congr 1
      cases hmove : e.move with
      | build reporter now =>
        have hhere := hunnoticed run now (asksAfter_kept hmove hinserted)
        exact List.singleton_inj.2 (build_full_of_unnoticed hforeign.before hunnoticed.before hhere reporter)
      | act | report | reset => rfl

theorem unnoticed_of_reports (hs : c.receiver.source = some s) (hforeign : InsertsForeign s run)
    (hshort : run.length < 2 ^ 64) (hlost : c.LosesFew run) (h : c.reports (full run) = c.reports (bare run)) :
    c.GoesUnnoticed run := by
  induction run using List.reverseRecOn with
  | nil =>
    rintro earlier now ⟨reporter, later, hnil⟩
    exact absurd hnil.symm (List.append_ne_nil_of_right_ne_nil _ (List.cons_ne_nil _ _))
  | append_singleton run e ih =>
    have hshort' : run.length < 2 ^ 64 := by
      rw [List.length_append] at hshort
      omega
    have ih := ih hforeign.before hshort' hlost.before
    rw [full_append_singleton, reports_append_singleton] at h
    intro earlier now hasks
    cases hinserted : e.inserted with
    | true =>
      have hother := hforeign.last hinserted
      rw [bare_append_inserted hinserted, asked_of_foreign hother, List.append_nil] at h
      rcases asksAfter_append_singleton_iff.1 hasks with hasks | ⟨-, reporter, rfl⟩
      · exact ih h earlier now hasks
      · cases hinserted
    | false =>
      rw [bare_append_kept hinserted, reports_append_singleton] at h
      have hlength : ((c.moved (full run)).asked e.move).length = ((c.moved (bare run)).asked e.move).length := by
        cases e.move <;> rfl
      obtain ⟨hbefore, hhere⟩ := List.append_inj' h hlength
      rcases asksAfter_append_singleton_iff.1 hasks with hasks' | ⟨rfl, reporter, rfl⟩
      · exact ih hbefore earlier now hasks'
      · exact unnoticedAt_of_build_full hs hshort' (hlost earlier now hasks) (List.singleton_inj.1 hhere)

/-- **Foreign traffic shows in the reports.**  Into a run that begins when source `s` has been adopted, packets and
sender reports of other sources are inserted.  If they are unnoticed whenever a report is asked for, then every report
is what it would be without them.  And if every report is, then they are unnoticed, as long as the losses without them
are such as reports can hold. -/
theorem reports_full (hs : c.receiver.source = some s) (hforeign : InsertsForeign s run) :
    (c.GoesUnnoticed run → c.reports (full run) = c.reports (bare run)) ∧
      (run.length < 2 ^ 64 → c.LosesFew run → c.reports (full run) = c.reports (bare run) → c.GoesUnnoticed run) :=
  ⟨reports_of_unnoticed hforeign, unnoticed_of_reports hs hforeign⟩

/-! ### A sample -/

def strayMove (number : Serial) : Move :=
  .act (.hand (.media (Rtp.Header.write ⟨true, 96, number, 0, 8⟩ ++ [0x41, 0x9a]) 0))

/-- A sender report that says that it is `seconds` o'clock. -/
def timeMove (source seconds : UInt32) : Move := .report (Rtcp.SenderReport.write ⟨source, ⟨seconds, 0⟩, 0, 0, 0⟩) 0

/-- A stray sender report that comes before another one is not echoed, and a stray packet that comes after all reports
does not show. -/
theorem reports_full_stray : ∃ r, Receiver.create {} .identity = .ok r ∧
    let c := moved { receiver := r } [wholeMove 0]
    let run := [⟨timeMove 8 2, true⟩, ⟨timeMove 7 1, false⟩, ⟨.build 9 0, false⟩, ⟨strayMove 1, true⟩]
    c.receiver.source = some 7 ∧ InsertsForeign 7 run ∧ run.length < 2 ^ 64 ∧ c.LosesFew run ∧
      c.GoesUnnoticed run ∧ c.reports (full run) = c.reports (bare run) := by
  refine ⟨_, rfl, ?_⟩
  intro c run
  have hs : c.receiver.source = some 7 := by decide +kernel
  have hforeign : InsertsForeign 7 run := by decide +kernel
  have hlost : c.LosesFew run := by
    rintro earlier now ⟨reporter, later, h⟩
    -- The only report is asked for after two moves.
    obtain rfl : earlier = run.take 2 := by
      rcases earlier with _ | ⟨first, _ | ⟨second, _ | ⟨third, _ | ⟨fourth, rest⟩⟩⟩⟩ <;>
        simp [run, timeMove, strayMove] at h ⊢
      exact ⟨h.1.symm, h.2.1.symm⟩
    decide +kernel
  have hsame : c.reports (full run) = c.reports (bare run) := by decide +kernel
  have hunnoticed := (reports_full hs hforeign).2 (by decide) hlost hsame
  exact ⟨hs, hforeign, by decide, hlost, hunnoticed, (reports_full hs hforeign).1 hunnoticed⟩

/-- A stray packet makes a packet seem to have come that has not been sent, and a stray sender report is echoed. -/
theorem strays_show : ∃ r, Receiver.create {} .identity = .ok r ∧
    let c := moved { receiver := r } [wholeMove 0]
    let run := [⟨timeMove 7 1, false⟩, ⟨strayMove 1, true⟩, ⟨timeMove 8 2, true⟩, ⟨.build 9 0, false⟩]
    c.receiver.source = some 7 ∧ InsertsForeign 7 run ∧
      c.reports (full run) = [some ⟨9, some ⟨7, 0, 0, 1, 187, 0x20000, 0⟩⟩] ∧
      c.reports (bare run) = [some ⟨9, some ⟨7, 0, 0, 0, 0, 0x10000, 0⟩⟩] :=
  ⟨_, rfl, by decide +kernel⟩

end Consumer
end VideoTransport
