import VideoTransport.Proofs.Extension
/-!
# Origins — the jitter and where clocks begin

Media times and arrival times count from origins of their own, so the difference of the two, the transit time, tells
nothing by itself; its change from one packet to the next does.  A transit time is a word of thirty-two bits and goes
round a circle, but its change is taken as a difference of signed numbers.  So the change that is taken into the jitter
is the short way round the circle, unless the transit time leaps from one end of its range to the other
(`Sighting.natAbs_transit_sub`), and moving the origins changes nothing exactly if the same packets leap before and
after (`Reception.jitter_shift_iff`).
-/
namespace VideoTransport

/-! ## Words read with sign -/

theorem toInt_toInt32 (x : UInt32) :
    x.toInt32.toInt = if x.toNat < 2 ^ 31 then (x.toNat : Int) else x.toNat - 2 ^ 32 := by
  have h : x.toInt32.toInt = _ := BitVec.toInt_eq_toNat_cond x.toBitVec
  rw [h, UInt32.toNat_toBitVec]
  by_cases hx : x.toNat < 2 ^ 31
  · rw [if_pos hx, if_pos (by omega)]
  · rw [if_neg hx, if_neg (by omega)]
    rfl

/-- The difference of two words read with sign is the way from one to the other round the circle, or the other way. -/
theorem natAbs_sub_toInt32 (x y : UInt32) :
    let change := (y.toInt32.toInt - x.toInt32.toInt).natAbs
    let short := (y - x).toInt32.toInt.natAbs
    change = if 2 ^ 31 < change then 2 ^ 32 - short else short := by
  have hx := x.toNat_lt
  have hy := y.toNat_lt
  simp only [toInt_toInt32, UInt32.toNat_sub]
  grind

/-! ## Two packets -/

namespace Sighting

variable {p q : Sighting} {c c' : UInt32}

/-- The same packet when media times are `c` and arrival times `c'` later. -/
def shift (c c' : UInt32) (p : Sighting) : Sighting :=
  { p with mediaTime := p.mediaTime + c, arrival := p.arrival + c' }

/-- Arrival less media time, on the circle. -/
def lag (p : Sighting) : UInt32 := p.arrival - p.mediaTime

def transit (p : Sighting) : Int := Reception.transit p.mediaTime p.arrival

/-- How far the lag moves from one packet to the next, the short way round the circle. -/
def swing (p q : Sighting) : Nat := (q.lag - p.lag).toInt32.toInt.natAbs

/-- Whether the transit time goes over to the other end of its range, which is the long way. -/
def Leaps (p q : Sighting) : Prop := 2 ^ 31 < (q.transit - p.transit).natAbs

instance (p q : Sighting) : Decidable (p.Leaps q) := inferInstanceAs (Decidable (_ < _))

/-- **The change of the transit time** is the swing, unless the transit time leaps. -/
theorem natAbs_transit_sub (p q : Sighting) :
    (q.transit - p.transit).natAbs = if p.Leaps q then 2 ^ 32 - p.swing q else p.swing q :=
  natAbs_sub_toInt32 p.lag q.lag

theorem lag_shift (p : Sighting) (c c' : UInt32) : (p.shift c c').lag = p.lag + (c' - c) := by
  simp only [lag, shift]
  grind

theorem swing_shift (p q : Sighting) (c c' : UInt32) : (p.shift c c').swing (q.shift c c') = p.swing q := by
  have hdifference : q.lag + (c' - c) - (p.lag + (c' - c)) = q.lag - p.lag := by grind
  rw [swing, lag_shift, lag_shift, hdifference, swing]

/-- Moving the origins keeps the change of the transit time if and only if it keeps whether the transit time leaps. -/
theorem natAbs_transit_shift_iff :
    ((q.shift c c').transit - (p.shift c c').transit).natAbs = (q.transit - p.transit).natAbs ↔
      (p.Leaps q ↔ (p.shift c c').Leaps (q.shift c c')) := by
  constructor
  · intro hsame
    rw [Leaps, Leaps, hsame]
  · intro hleaps
    rw [natAbs_transit_sub, natAbs_transit_sub, swing_shift]
    by_cases hl : p.Leaps q
    · rw [if_pos hl, if_pos (hleaps.1 hl)]
    · rw [if_neg hl, if_neg (mt hleaps.2 hl)]

end Sighting

/-! ## Runs -/

namespace Reception

variable {r r' : Reception} {c c' : UInt32}

/-- What a packet feeds into the jitter: how far its transit time is from the one before. -/
def deviation (r : Reception) (p : Sighting) : Option Nat := r.lastTransit.map fun last => (p.transit - last).natAbs

/-- What the packets of a run feed into the jitter. -/
def deviations : Reception → List Sighting → List (Option Nat)
  | _, [] => []
  | r, p :: rest => r.deviation p :: deviations (r.record p.source p.number p.mediaTime p.arrival) rest

def feed (average : Float) : Option Nat → Float
  | none => average
  | some deviation => smooth average deviation.toFloat

theorem record_takes (r : Reception) (p : Sighting) :
    (r.record p.source p.number p.mediaTime p.arrival).lastTransit = some p.transit ∧
      (r.record p.source p.number p.mediaTime p.arrival).jitter = feed r.jitter (r.deviation p) := by
  have htake (r' : Reception) (hjitter : r'.jitter = r.jitter) (hlast : r'.lastTransit = r.lastTransit) :
      (r'.takeTransit p.transit).jitter = feed r.jitter (r.deviation p) := by
    rw [takeTransit, deviation, hjitter, hlast]
    cases r.lastTransit <;> rfl
  unfold record
  cases r.source with
  | none => exact ⟨rfl, htake _ rfl rfl⟩
  | some source =>
    obtain ⟨cycles, highest, hadvance⟩ := r.advance_cases p.number
    simp only [hadvance]
    exact ⟨rfl, htake _ rfl rfl⟩

/-- **The jitter after a run** follows from what its packets feed into it. -/
theorem jitter_recordAll : ∀ (seen : List Sighting) (r : Reception),
    (r.recordAll seen).jitter = (r.deviations seen).foldl feed r.jitter
  | [], _ => rfl
  | p :: rest, r => by
    have ih := jitter_recordAll rest (r.record p.source p.number p.mediaTime p.arrival)
    rw [(r.record_takes p).2] at ih
    exact ih

theorem deviations_shift_of_last : ∀ (rest : List Sighting) {p : Sighting} {r r' : Reception},
    r.lastTransit = some p.transit → r'.lastTransit = some (p.shift c c').transit →
    (r'.deviations (rest.map (Sighting.shift c c')) = r.deviations rest ↔
      (p :: rest).IsChain fun p q => p.Leaps q ↔ (p.shift c c').Leaps (q.shift c c'))
  | [], _, _, _, _, _ => iff_of_true rfl (.singleton _)
  | q :: rest, p, r, r', hlast, hlast' => by
    have ih := deviations_shift_of_last rest (r.record_takes q).1 (r'.record_takes (q.shift c c')).1
    rw [List.map_cons, deviations, deviations, List.cons.injEq, ih, List.isChain_cons_cons]
    rw [deviation, deviation, hlast, hlast', Option.map_some, Option.map_some, Option.some.injEq]
    rw [Sighting.natAbs_transit_shift_iff]

/-- **The jitter and the origins of the clocks.**  Whatever packets come, moving both origins keeps what every packet
feeds into the jitter if and only if the transit time leaps with the same packets before and after; and if so, it keeps
the jitter, also as it is reported. -/
theorem jitter_shift_iff (wrapHigh wrapLow : UInt16) (seen : List Sighting) (c c' : UInt32) :
    let r : Reception := { wrapHigh, wrapLow }
    let shifted := seen.map (Sighting.shift c c')
    (r.deviations shifted = r.deviations seen ↔
        seen.IsChain fun p q => p.Leaps q ↔ (p.shift c c').Leaps (q.shift c c')) ∧
      (r.deviations shifted = r.deviations seen →
        (r.recordAll shifted).jitter = (r.recordAll seen).jitter ∧
          ∀ now, ((r.recordAll shifted).reportBlock now).1.jitter = ((r.recordAll seen).reportBlock now).1.jitter) := by
  intro r shifted
  constructor
  · cases seen with
    | nil => exact iff_of_true rfl .nil
    | cons p rest =>
      -- the first packet feeds nothing, whatever its transit time
      have hrest := deviations_shift_of_last rest (r.record_takes p).1 (r.record_takes (p.shift c c')).1
      have hfirst : ∀ q, r.deviation q = none := fun _ => rfl
      simp only [shifted, List.map_cons, deviations, List.cons.injEq, hfirst, true_and]
      exact hrest
  · intro hsame
    have hjitter : (r.recordAll shifted).jitter = (r.recordAll seen).jitter := by
      rw [jitter_recordAll, jitter_recordAll, hsame]
    exact ⟨hjitter, fun now => congrArg Float.toUInt32 hjitter⟩

/-- Two packets whose transit times differ by one feed one into the jitter, but 2^32 less one when the clock of the
receiver begins so much later that the first transit time is the greatest one and the second the least. -/
theorem jitter_tells_origin :
    let seen : List Sighting := [⟨1, 0, 0, 0⟩, ⟨1, 1, 0, 1⟩]
    ({} : Reception).deviations seen = [none, some 1] ∧
      ({} : Reception).deviations (seen.map (Sighting.shift 0 2147483647)) = [none, some 4294967295] := by
  decide +kernel

end Reception
end VideoTransport
