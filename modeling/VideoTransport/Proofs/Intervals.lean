import Mathlib.Algebra.Ring.Nat
import VideoTransport.Proofs.Totals
/-!
# Intervals — reports cut a reception into pieces

A report is about what has been expected and received since the one before, and remembers both counts for the next
one.  Reports leave everything else alone, so they can be put in and left out anywhere.  As long as the totals only
grow, the pieces add up to them, and a piece in which something was expected has a packet in it, so that less than all
of it is lost (`Reception.reports_partition`).
-/
namespace VideoTransport
namespace Reception

inductive Call where
  | record (p : Sighting)
  | report (now : Nat)

def Call.sighting? : Call → Option Sighting
  | .record p => some p
  | .report _ => none

def sightings (calls : List Call) : List Sighting := calls.filterMap Call.sighting?

def perform (r : Reception) : Call → Reception
  | .record p => r.record p.source p.number p.mediaTime p.arrival
  | .report now => (r.reportBlock now).2

def after (r : Reception) (calls : List Call) : Reception := calls.foldl perform r

variable {r : Reception} {calls : List Call}

theorem after_append_singleton (r : Reception) (calls : List Call) (call : Call) :
    r.after (calls ++ [call]) = (r.after calls).perform call := by
  rw [after, List.foldl_append]
  rfl

/-! ## Reports leave no trace but in reports -/

def unmarked (r : Reception) : Reception := r.revise (fun _ => 0) id

theorem sightings_cons (call : Call) (rest : List Call) : sightings (call :: rest) = sightings [call] ++ sightings rest :=
  List.filterMap_append (l := [call])

theorem unmarked_perform (r : Reception) (call : Call) :
    (r.perform call).unmarked = r.unmarked.recordAll (sightings [call]) := by
  cases call with
  | record p => exact (record_revise _ _ r p.source p.number p.mediaTime p.arrival).symm
  | report now => rfl

/-- **What is counted in a run** is what its packets make up, wherever reports are made. -/
theorem unmarked_after : ∀ (calls : List Call) (r : Reception),
    (r.after calls).unmarked = r.unmarked.recordAll (sightings calls)
  | [], _ => rfl
  | call :: rest, r => by
    have ih := unmarked_after rest (r.perform call)
    rw [unmarked_perform, ← recordAll_append, ← sightings_cons] at ih
    exact ih

theorem Grows.of_unmarked {before after : Reception} (h : Grows before.unmarked after.unmarked) : Grows before after :=
  ⟨h.exact, h.highest, h.expected⟩

/-! ## What is counted -/

/-- **One packet** is counted once, and does not change what is remembered of reports. -/
theorem record_counts (r : Reception) (p : Sighting) :
    let r' := r.record p.source p.number p.mediaTime p.arrival
    r'.expectedBefore = r.expectedBefore ∧ r'.receivedBefore = r.receivedBefore ∧ r'.received = r.received + 1 := by
  cases hsource : r.source with
  | none => simp only [record, hsource, takeTransit, and_self]
  | some source =>
    obtain ⟨_, _, _, _, hrecord⟩ := record_of_source hsource p
    simp only [hrecord, and_self]

theorem received_perform (r : Reception) (call : Call) :
    (r.perform call).received = r.received + UInt64.ofNat (sightings [call]).length := by
  cases call with
  | record p => exact (r.record_counts p).2.2
  | report now => exact (UInt64.add_zero _).symm

theorem received_after : ∀ (calls : List Call) (r : Reception),
    (r.after calls).received = r.received + UInt64.ofNat (sightings calls).length
  | [], r => (UInt64.add_zero r.received).symm
  | call :: rest, r => by
    have ih := received_after rest (r.perform call)
    rw [received_perform, UInt64.add_assoc, ← UInt64.ofNat_add, ← List.length_append, ← sightings_cons] at ih
    exact ih

theorem sightings_append_record (earlier : List Call) (p : Sighting) :
    sightings (earlier ++ [.record p]) = sightings earlier ++ [p] := List.filterMap_append

theorem sightings_append_report (earlier : List Call) (now : Nat) :
    sightings (earlier ++ [.report now]) = sightings earlier := by
  rw [sightings, List.filterMap_append]
  exact List.append_nil _

/-! ## Since the last report -/

/-- What is remembered of the last report is no more than there is now, and when more is expected than then, something
has been received since. -/
structure Marked (r : Reception) : Prop where
  exact : ¬r.Underflows
  expected : r.expectedBefore ≤ r.expected
  received : r.receivedBefore ≤ r.received
  some_received : r.expectedBefore < r.expected → r.receivedBefore < r.received

theorem marked_first (wrapHigh wrapLow : UInt16) : Marked { wrapHigh, wrapLow } :=
  ⟨Nat.not_lt_zero _, UInt64.le_refl _, UInt64.le_refl _, fun hlt => absurd hlt (UInt64.lt_irrefl _)⟩

/-- A packet makes what has been received more, whether or not it makes what is expected more. -/
theorem Marked.record (h : Marked r) {p : Sighting} (hcount : r.received.toNat + 1 < 2 ^ 64)
    (hgrows : Grows r (r.perform (.record p))) : Marked (r.perform (.record p)) := by
  obtain ⟨hexpected, hreceived, hcounted⟩ := r.record_counts p
  have hmore : (r.perform (.record p)).receivedBefore < (r.perform (.record p)).received := by
    have hbefore := UInt64.le_iff_toNat_le.1 h.received
    rw [UInt64.lt_iff_toNat_lt, perform, hreceived, hcounted, UInt64.toNat_add, UInt64.toNat_one]
    omega
  refine ⟨hgrows.exact, ?_, UInt64.le_of_lt hmore, fun _ => hmore⟩
  rw [perform, hexpected]
  exact UInt64.le_trans h.expected hgrows.expected

theorem Marked.report (h : Marked r) (now : Nat) : Marked (r.perform (.report now)) :=
  ⟨h.exact, UInt64.le_refl _, UInt64.le_refl _, fun hlt => absurd hlt (UInt64.lt_irrefl _)⟩

/-! ## Intervals -/

structure Interval where
  expected : Nat
  received : Nat

def interval (r : Reception) : Interval where
  expected := (saturatingSub r.expected r.expectedBefore).toNat
  received := (saturatingSub r.received r.receivedBefore).toNat

def intervals : Reception → List Call → List Interval
  | _, [] => []
  | r, .record p :: rest => intervals (r.perform (.record p)) rest
  | r, .report now :: rest => r.interval :: intervals (r.perform (.report now)) rest

theorem intervals_append : ∀ (earlier later : List Call) (r : Reception),
    r.intervals (earlier ++ later) = r.intervals earlier ++ (r.after earlier).intervals later
  | [], _, _ => rfl
  | .record p :: rest, later, r => intervals_append rest later (r.perform (.record p))
  | .report now :: rest, later, r => congrArg (r.interval :: ·) (intervals_append rest later (r.perform (.report now)))

theorem toNat_saturatingSub (a b : UInt64) : (saturatingSub a b).toNat = a.toNat - b.toNat := by
  unfold saturatingSub
  by_cases h : a < b
  · rw [if_pos h, UInt64.toNat_zero, Nat.sub_eq_zero_of_le (Nat.le_of_lt (UInt64.lt_iff_toNat_lt.1 h))]
  · rw [if_neg h, UInt64.toNat_sub_of_le _ _ (UInt64.not_lt.1 h)]

/-- The intervals of a run make up what is remembered of its last report. -/
structure Balanced (r : Reception) (calls : List Call) : Prop where
  marked : Marked (r.after calls)
  expected : ((r.intervals calls).map (·.expected)).sum = (r.after calls).expectedBefore.toNat
  received : ((r.intervals calls).map (·.received)).sum = (r.after calls).receivedBefore.toNat

theorem Balanced.record (h : Balanced r calls) {p : Sighting} (hcount : (r.after calls).received.toNat + 1 < 2 ^ 64)
    (hgrows : Grows (r.after calls) ((r.after calls).perform (.record p))) : Balanced r (calls ++ [.record p]) := by
  obtain ⟨hexpected, hreceived, -⟩ := (r.after calls).record_counts p
  have hintervals : r.intervals (calls ++ [.record p]) = r.intervals calls :=
    (intervals_append calls [.record p] r).trans (List.append_nil _)
  refine ⟨?_, ?_, ?_⟩
  · rw [after_append_singleton]
    exact h.marked.record hcount hgrows
  · rw [hintervals, after_append_singleton, perform, hexpected, h.expected]
  · rw [hintervals, after_append_singleton, perform, hreceived, h.received]

/-- A report adds what has come to be expected and received since the one before. -/
theorem Balanced.report (h : Balanced r calls) (now : Nat) : Balanced r (calls ++ [.report now]) := by
  have hintervals : r.intervals (calls ++ [.report now]) = r.intervals calls ++ [(r.after calls).interval] :=
    intervals_append calls [.report now] r
  have hexpected := UInt64.le_iff_toNat_le.1 h.marked.expected
  have hreceived := UInt64.le_iff_toNat_le.1 h.marked.received
  refine ⟨?_, ?_, ?_⟩
  · rw [after_append_singleton]
    exact h.marked.report now
  · rw [hintervals, List.map_append, List.sum_append, h.expected, after_append_singleton]
    show _ + ((saturatingSub _ _).toNat + 0) = (r.after calls).expected.toNat
    rw [toNat_saturatingSub]
    omega
  · rw [hintervals, List.map_append, List.sum_append, h.received, after_append_singleton]
    show _ + ((saturatingSub _ _).toNat + 0) = (r.after calls).received.toNat
    rw [toNat_saturatingSub]
    omega

theorem toNat_received_after (wrapHigh wrapLow : UInt16) {calls : List Call} (hcount : (sightings calls).length < 2 ^ 63) :
    (({ wrapHigh, wrapLow } : Reception).after calls).received.toNat = (sightings calls).length := by
  rw [received_after, UInt64.zero_add, UInt64.toNat_ofNat']
  omega

/-- **A run of few turns is balanced.** -/
theorem balanced (wrapHigh wrapLow : UInt16) : ∀ {calls : List Call},
    ({ wrapHigh, wrapLow } : Reception).turns (sightings calls) < 65536 → (sightings calls).length < 2 ^ 63 →
      Balanced { wrapHigh, wrapLow } calls := by
  intro calls
  induction calls using List.reverseRecOn with
  | nil => exact fun _ _ => ⟨marked_first wrapHigh wrapLow, rfl, rfl⟩
  | append_singleton calls call ih =>
    intro hfew hcount
    cases call with
    | report now =>
      rw [sightings_append_report] at hfew hcount
      exact (ih hfew hcount).report now
    | record p =>
      rw [sightings_append_record] at hfew hcount
      have hgrows := grows_of_turns wrapHigh wrapLow (sightings calls) p hfew
      rw [List.length_append, List.length_singleton] at hcount
      have h := ih (Nat.lt_of_le_of_lt (turns_mono (List.prefix_append _ [p]) _) hfew) (Nat.lt_of_succ_lt hcount)
      refine h.record ?_ (.of_unmarked ?_)
      · rw [toNat_received_after wrapHigh wrapLow (Nat.lt_of_succ_lt hcount)]
        omega
      · rw [unmarked_perform, unmarked_after, ← recordAll_append]
        exact hgrows

/-! ## Shares -/

/-- When something came of what was expected, less than all of it is lost. -/
theorem share_le {expected received : Nat} (h : 0 < expected → 0 < received) :
    256 * (expected - received) / expected ≤ 255 := by
  rcases Nat.eq_zero_or_pos expected with rfl | hpos
  · rw [Nat.div_zero]
    exact Nat.zero_le 255
  · have := h hpos
    exact Nat.le_of_lt_succ ((Nat.div_lt_iff_lt_mul hpos).2 (by omega))

theorem toNat_fractionLost {expected received : UInt64} (hexpected : expected.toNat < 2 ^ 63)
    (hreceived : received.toNat < 2 ^ 63) (hsome : 0 < expected.toNat → 0 < received.toNat) :
    (fractionLost expected received).toNat =
      if received.toNat < expected.toNat then 256 * (expected.toNat - received.toNat) / expected.toNat else 0 := by
  have hlost : (expected - received).toInt64.toInt = (expected.toNat : Int) - received.toNat := by
    rw [toInt_toInt64_sub]
    exact Int.bmod_eq_of_le (by omega) (by omega)
  have hzero : expected = 0 ↔ expected.toNat = 0 := UInt64.toNat_inj.symm
  simp only [fractionLost, hlost, hzero]
  by_cases hless : received.toNat < expected.toNat
  · have hshare := share_le hsome
    rw [if_neg (by omega), if_pos hless, Int.toNat_sub, Nat.mul_comm, Nat.min_eq_left hshare, UInt8.toNat_ofNat',
      Nat.mod_eq_of_lt (Nat.lt_succ_of_le hshare)]
  · rw [if_pos (by omega), if_neg hless]
    rfl

theorem toNat_expected_le (hexact : ¬r.Underflows) : r.expected.toNat ≤ 2 ^ 32 := by
  cases hsource : r.source with
  | none =>
    rw [expected, hsource]
    exact Nat.zero_le _
  | some source =>
    have hword := r.extendedHighest.toNat_lt
    rw [toNat_expected_of_exact (by rw [hsource, Option.isSome_some]) hexact]
    omega

/-- **The share of a report** is that of its interval. -/
theorem Marked.toNat_fractionLost (h : Marked r) (hcount : r.received.toNat < 2 ^ 63) (now : Nat) :
    let i := r.interval
    (r.reportBlock now).1.fractionLost.toNat =
        (if i.received < i.expected then 256 * (i.expected - i.received) / i.expected else 0) ∧
      256 * (i.expected - i.received) / i.expected ≤ 255 := by
  intro i
  have hexpected : i.expected = r.expected.toNat - r.expectedBefore.toNat := toNat_saturatingSub _ _
  have hreceived : i.received = r.received.toNat - r.receivedBefore.toNat := toNat_saturatingSub _ _
  have hle := toNat_expected_le h.exact
  have hsome : 0 < i.expected → 0 < i.received := by
    intro hpos
    have hmore := h.some_received (UInt64.lt_iff_toNat_lt.2 (by omega))
    rw [UInt64.lt_iff_toNat_lt] at hmore
    omega
  have hfraction : (r.reportBlock now).1.fractionLost =
      fractionLost (saturatingSub r.expected r.expectedBefore) (saturatingSub r.received r.receivedBefore) := rfl
  rw [hfraction]
  exact ⟨Reception.toNat_fractionLost (show i.expected < 2 ^ 63 by omega) (show i.received < 2 ^ 63 by omega) hsome,
    share_le hsome⟩

/-- **Reports cut a reception into pieces.**  Whatever is recorded, reports made in between change nothing that is
counted.  While fewer than 2^16 turns are recognised, and no more packets have come than a signed count of 64 bits
holds, neither count has fallen since the report before, all the intervals up to a report add up to what is expected and
received then, and its fraction is the share of its interval that is lost, which is never cut down to fit. -/
theorem reports_partition (wrapHigh wrapLow : UInt16) (calls : List Call) :
    let fresh : Reception := { wrapHigh, wrapLow }
    (∀ others, sightings others = sightings calls →
      let r := fresh.after calls
      let r' := fresh.after others
      r'.extendedHighest = r.extendedHighest ∧ r'.expected = r.expected ∧ r'.received = r.received ∧
        r'.cumulativeLost = r.cumulativeLost ∧ r'.jitter = r.jitter) ∧
      (fresh.turns (sightings calls) < 65536 → (sightings calls).length < 2 ^ 63 →
        ∀ earlier now, earlier ++ [.report now] <+: calls →
          let r := fresh.after earlier
          let i := r.interval
          let all := fresh.intervals (earlier ++ [.report now])
          (r.expectedBefore ≤ r.expected ∧ r.receivedBefore ≤ r.received) ∧
            ((all.map (·.expected)).sum = r.expected.toNat ∧ (all.map (·.received)).sum = r.received.toNat ∧
              r.received.toNat = (sightings earlier).length) ∧
            (r.reportBlock now).1.fractionLost.toNat =
              (if i.received < i.expected then 256 * (i.expected - i.received) / i.expected else 0) ∧
            256 * (i.expected - i.received) / i.expected ≤ 255) := by
  intro fresh
  constructor
  · intro others hsame r r'
    have hcounted : r'.unmarked = r.unmarked := by
      rw [unmarked_after, unmarked_after, hsame]
    have hread {α : Type} (f : Reception → α) : f r'.unmarked = f r.unmarked := congrArg f hcounted
    exact ⟨hread extendedHighest, hread Reception.expected, hread Reception.received, hread cumulativeLost,
      hread jitter⟩
  · intro hfew hcount earlier now hprefix r i all
    have hpart : sightings earlier <+: sightings calls := by
      rw [← sightings_append_report earlier now]
      exact hprefix.filterMap _
    have hfew' := Nat.lt_of_le_of_lt (fresh.turns_mono hpart) hfew
    have hcount' := Nat.lt_of_le_of_lt hpart.length_le hcount
    have hbefore := balanced wrapHigh wrapLow hfew' hcount'
    have hafter := hbefore.report now
    have hreceived := toNat_received_after wrapHigh wrapLow hcount'
    have hshare := hbefore.marked.toNat_fractionLost (by rw [hreceived]; exact hcount') now
    refine ⟨⟨hbefore.marked.expected, hbefore.marked.received⟩, ⟨?_, ?_, hreceived⟩, hshare⟩
    · rw [hafter.expected, after_append_singleton]
      rfl
    · rw [hafter.received, after_append_singleton]
      rfl

/-- Three of eight packets are missing at the first report.  By the second, two of them have come late and another one
has come again, so that more was received in between than expected. -/
theorem reports_partition_of_late :
    let number (n : Serial) : Call := .record ⟨1, n, 0, 0⟩
    let first := [0, 1, 2, 3, 7].map number
    let earlier := first ++ [.report 0] ++ [4, 5, 7, 8].map number
    let calls := earlier ++ [.report 1]
    let all := ({} : Reception).intervals calls
    ((all.map (·.expected)).sum = 9 ∧ (all.map (·.received)).sum = 9) ∧
      ((({} : Reception).after first).reportBlock 0).1.fractionLost.toNat = 96 := by
  intro number first earlier calls all
  have hfew : ({} : Reception).turns (sightings calls) < 65536 := by decide
  have hcount : (sightings calls).length < 2 ^ 63 := by decide
  obtain ⟨-, hreports⟩ := reports_partition 60000 5000 calls
  obtain ⟨-, ⟨hexpected, hreceived, -⟩, -⟩ := hreports hfew hcount earlier 1 List.prefix_rfl
  obtain ⟨-, -, hfraction, -⟩ := hreports hfew hcount first 0 ⟨_, List.append_assoc _ _ _⟩
  exact ⟨⟨hexpected.trans (by decide), hreceived.trans (by decide)⟩, hfraction.trans (by decide)⟩

end Reception
end VideoTransport
