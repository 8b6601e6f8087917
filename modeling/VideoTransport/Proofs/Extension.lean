import Mathlib.Algebra.Group.Int.Defs
import Mathlib.Algebra.Group.Nat.Defs
import Mathlib.Data.Finset.Card
import Mathlib.Data.Int.Order.Basic
import VideoTransport.Proofs.Intake
import VideoTransport.Proofs.Position
/-!
# Extension — the highest number, unrolled

Sequence numbers are the residues of positions that a reception cannot see.  As long as every packet is near enough to
the highest position so far, turns and highest number together are that position (`Unrolled`), so what is expected and
lost comes out exactly (`recordAll_exact`).  How near is near enough is set by the two marks between which a turn is
recognised; marks that leave nothing above or below them never let a turn be counted (`counts_perfectly_iff`).
-/
namespace VideoTransport

structure Sighting where
  source : UInt32
  number : Serial
  mediaTime : UInt32
  arrival : UInt32

namespace Reception

def recordAll (r : Reception) (seen : List Sighting) : Reception :=
  seen.foldl (fun r p => r.record p.source p.number p.mediaTime p.arrival) r

theorem recordAll_append (r : Reception) (seen later : List Sighting) :
    r.recordAll (seen ++ later) = (r.recordAll seen).recordAll later := List.foldl_append

variable {r : Reception} {s : Serial} {p : Sighting} {wrapHigh wrapLow : UInt16} {start top x : Int} {count : Nat}

/-! ## One number -/

theorem toNat_ofInt (x : Int) : ((UInt16.ofInt x).toNat : Int) = x % 65536 := by
  rw [UInt16.ofInt, UInt16.toNat_ofNat']
  omega

theorem advance_cases (r : Reception) (number : Serial) :
    ∃ cycles highest, r.advance number = { r with cycles, highest } := by
  unfold advance
  simp only
  split
  · split
    · exact ⟨r.cycles, number, rfl⟩
    · split
      · exact ⟨r.cycles + 1, number, rfl⟩
      · exact ⟨r.cycles, r.highest, rfl⟩
  · exact ⟨r.cycles, r.highest, rfl⟩

/-- Change what is remembered of reports: both counts at the last one made, and the last one heard. -/
def revise (counts : UInt64 → UInt64) (heard : Option (UInt32 × Nat) → Option (UInt32 × Nat)) (r : Reception) :
    Reception :=
  { r with
    expectedBefore := counts r.expectedBefore
    receivedBefore := counts r.receivedBefore
    lastReport := heard r.lastReport }

/-- What is remembered of reports has no part in recording. -/
theorem record_revise (counts : UInt64 → UInt64) (heard : Option (UInt32 × Nat) → Option (UInt32 × Nat)) (r : Reception)
    (source : UInt32) (number : Serial) (mediaTime arrival : UInt32) :
    (r.revise counts heard).record source number mediaTime arrival =
      (r.record source number mediaTime arrival).revise counts heard := by
  cases hsource : r.source with
  | none => simp only [record, revise, hsource, takeTransit]
  | some _ =>
    have hadvance : (r.revise counts heard).advance number = (r.advance number).revise counts heard := by
      unfold advance
      simp only [apply_ite (revise counts heard)]
      rfl
    simp only [record, show (r.revise counts heard).source = r.source from rfl, hsource, hadvance]
    rfl

/-- Every packet but the first is an advance to its number, one more received, and a jitter. -/
theorem record_of_isSome (h : r.source.isSome = true) (p : Sighting) :
    ∃ jitter lastTransit, r.record p.source p.number p.mediaTime p.arrival =
      { r.advance p.number with received := (r.advance p.number).received + 1, jitter, lastTransit } := by
  obtain ⟨source, hsource⟩ := Option.isSome_iff_exists.1 h
  rw [record, hsource]
  exact ⟨_, _, rfl⟩

/-- **One packet**, once there is a source: it is counted, whoever sent it. -/
theorem record_of_source {source : UInt32} (h : r.source = some source) (p : Sighting) :
    ∃ cycles highest jitter lastTransit, r.record p.source p.number p.mediaTime p.arrival =
      { r with cycles, highest, received := r.received + 1, jitter, lastTransit } := by
  obtain ⟨jitter, lastTransit, hrecord⟩ := record_of_isSome (by rw [h, Option.isSome_some]) p
  obtain ⟨cycles, highest, hadvance⟩ := r.advance_cases p.number
  rw [hadvance] at hrecord
  exact ⟨cycles, highest, jitter, lastTransit, hrecord⟩

/-- A number that is not ahead of the highest one changes nothing. -/
theorem advance_of_behind (h : s = r.highest ∨ 32768 ≤ (Serial.distance r.highest s).toNat) : r.advance s = r := by
  refine if_neg ?_
  rintro ⟨hne, hahead⟩
  rcases h with rfl | h
  · exact hne (UInt16.sub_self _)
  · rw [UInt16.lt_iff_toNat_lt, Serial.toNat_half] at hahead
    omega

/-- Within a turn, the highest number moves up to a later one. -/
theorem advance_of_later (h : r.highest < s) (hnear : s.toNat < r.highest.toNat + 32768) :
    r.advance s = { r with highest := s } := by
  rw [UInt16.lt_iff_toNat_lt] at h
  have hdistance : (Serial.distance r.highest s).toNat = s.toNat - r.highest.toNat := by
    rw [Serial.distance, UInt16.toNat_sub]
    have := s.toNat_lt
    omega
  have hahead : Serial.distance r.highest s ≠ 0 ∧ Serial.distance r.highest s < Serial.half := by
    rw [UInt16.lt_iff_toNat_lt, Serial.toNat_half, ne_eq, ← UInt16.toNat_inj, hdistance, UInt16.toNat_zero]
    omega
  rw [advance, if_pos hahead, if_pos (UInt16.lt_iff_toNat_lt.2 h)]

/-- A number that is ahead but smaller is taken for one of the next turn, if the marks say so. -/
theorem advance_of_turn (h : s.toNat + 32768 < r.highest.toNat) (hhigh : r.wrapHigh < r.highest)
    (hlow : s < r.wrapLow) : r.advance s = { r with cycles := r.cycles + 1, highest := s } := by
  have hdistance : (Serial.distance r.highest s).toNat = s.toNat + 65536 - r.highest.toNat := by
    rw [Serial.distance, UInt16.toNat_sub]
    have := r.highest.toNat_lt
    omega
  have hahead : Serial.distance r.highest s ≠ 0 ∧ Serial.distance r.highest s < Serial.half := by
    rw [UInt16.lt_iff_toNat_lt, Serial.toNat_half, ne_eq, ← UInt16.toNat_inj, hdistance, UInt16.toNat_zero]
    have := r.highest.toNat_lt
    omega
  have hsmaller : ¬r.highest < s := by
    rw [UInt16.lt_iff_toNat_lt]
    omega
  rw [advance, if_pos hahead, if_neg hsmaller, if_pos ⟨hhigh, hlow⟩]

/-- No number follows the last one of a turn when no turn can be recognised. -/
theorem advance_of_last (h : r.highest.toNat = 65535) (hmarks : r.wrapLow = 0 ∨ r.wrapHigh.toNat = 65535) (s : Serial) :
    r.advance s = r := by
  have hsmaller : ¬r.highest < s := by
    rw [UInt16.lt_iff_toNat_lt]
    have := s.toNat_lt
    omega
  have hturn : ¬(r.wrapHigh < r.highest ∧ s < r.wrapLow) := by
    rw [UInt16.lt_iff_toNat_lt, UInt16.lt_iff_toNat_lt]
    rintro ⟨hhigh, hlow⟩
    rcases hmarks with hzero | hmax
    · rw [hzero] at hlow
      exact Nat.not_lt_zero _ hlow
    · omega
  rw [advance, if_neg hsmaller, if_neg hturn]
  exact ite_self r

/-! ## What is known of the positions -/

/-- The reception has counted `count` packets of a stream that began at position `start`, and the highest position so
far is `top`. -/
structure Unrolled (wrapHigh wrapLow : UInt16) (start top : Int) (count : Nat) (r : Reception) : Prop where
  markHigh : r.wrapHigh = wrapHigh
  markLow : r.wrapLow = wrapLow
  source : r.source.isSome = true
  base : (r.base.toNat : Int) = start
  highest : (r.cycles.toNat : Int) * 65536 + r.highest.toNat = top
  start_le : start ≤ top
  cycles : r.cycles.toNat < 65536
  received : r.received = UInt64.ofNat count

/-- Counting a further packet is advancing to its number; the rest does not bear on positions. -/
theorem Unrolled.record (h : Unrolled wrapHigh wrapLow start top count r) {top' : Int}
    (hadvance : Unrolled wrapHigh wrapLow start top' count (r.advance p.number)) :
    Unrolled wrapHigh wrapLow start top' (count + 1) (r.record p.source p.number p.mediaTime p.arrival) := by
  obtain ⟨_, _, hrecord⟩ := record_of_isSome h.source p
  rw [hrecord]
  refine ⟨hadvance.markHigh, hadvance.markLow, hadvance.source, hadvance.base, hadvance.highest, hadvance.start_le,
    hadvance.cycles, ?_⟩
  show (r.advance p.number).received + 1 = UInt64.ofNat (count + 1)
  rw [hadvance.received, UInt64.ofNat_add]
  rfl

theorem unrolled_first (wrapHigh wrapLow : UInt16) (p : Sighting) :
    Unrolled wrapHigh wrapLow p.number.toNat p.number.toNat 1
      (({ wrapHigh, wrapLow } : Reception).record p.source p.number p.mediaTime p.arrival) := by
  refine ⟨rfl, rfl, rfl, rfl, ?_, Int.le_refl _, Nat.two_pow_pos 16, rfl⟩
  show (0 : Int) * 65536 + p.number.toNat = p.number.toNat
  omega

/-- The highest position moves up within its turn. -/
theorem Unrolled.later (h : Unrolled wrapHigh wrapLow start top count r) (hlt : top < x) (hnear : x < top + 32768)
    (hsame : x / 65536 = top / 65536) (hs : (s.toNat : Int) = x % 65536) :
    Unrolled wrapHigh wrapLow start x count (r.advance s) := by
  have htop := h.highest
  have hhighest := r.highest.toNat_lt
  have hlater : r.highest < s := by
    rw [UInt16.lt_iff_toNat_lt]
    omega
  rw [advance_of_later hlater (by omega)]
  refine ⟨h.markHigh, h.markLow, h.source, h.base, ?_, Int.le_trans h.start_le (Int.le_of_lt hlt), h.cycles, h.received⟩
  show (r.cycles.toNat : Int) * 65536 + s.toNat = x
  omega

/-- The highest position moves into the next turn. -/
theorem Unrolled.turn (h : Unrolled wrapHigh wrapLow start top count r) (hlt : top < x) (hnear : x < top + 32768)
    (hbound : x < 2 ^ 32) (hother : x / 65536 ≠ top / 65536) (hhigh : wrapHigh.toNat < top % 65536)
    (hlow : x % 65536 < wrapLow.toNat) (hs : (s.toNat : Int) = x % 65536) :
    Unrolled wrapHigh wrapLow start x count (r.advance s) := by
  have htop := h.highest
  have hhighest := r.highest.toNat_lt
  have hcycles : (r.cycles + 1).toNat = r.cycles.toNat + 1 := by
    rw [UInt32.toNat_add, UInt32.toNat_one]
    have := h.cycles
    omega
  have hpast : r.wrapHigh < r.highest := by
    rw [UInt16.lt_iff_toNat_lt, h.markHigh]
    omega
  have hbefore : s < r.wrapLow := by
    rw [UInt16.lt_iff_toNat_lt, h.markLow]
    omega
  rw [advance_of_turn (by omega) hpast hbefore]
  refine ⟨h.markHigh, h.markLow, h.source, h.base, ?_, Int.le_trans h.start_le (Int.le_of_lt hlt), ?_, h.received⟩
  · show ((r.cycles + 1).toNat : Int) * 65536 + s.toNat = x
    rw [hcycles]
    omega
  · show (r.cycles + 1).toNat < 65536
    rw [hcycles]
    omega

/-- Whether a packet at position `x` is told apart from all others when the highest position so far is `top`: it is not
far behind, or it is not far ahead and in the same turn or recognised to be in the next one. -/
def Heeded (wrapHigh wrapLow : UInt16) (top x : Int) : Prop :=
  x ≤ top ∧ top ≤ x + 32768 ∨
    top < x ∧ x < top + 32768 ∧
      (x / 65536 = top / 65536 ∨ wrapHigh.toNat < top % 65536 ∧ x % 65536 < wrapLow.toNat)

/-- **One packet** that is heeded raises the highest position to its own, if that is higher. -/
theorem Unrolled.next (h : Unrolled wrapHigh wrapLow start top count r) (hx : Heeded wrapHigh wrapLow top x)
    (hbound : max top x < 2 ^ 32) (hp : p.number = UInt16.ofInt x) :
    Unrolled wrapHigh wrapLow start (max top x) (count + 1) (r.record p.source p.number p.mediaTime p.arrival) := by
  refine h.record ?_
  have hnumber : (p.number.toNat : Int) = x % 65536 := by rw [hp, toNat_ofInt]
  rcases hx with ⟨hle, hnear⟩ | ⟨hlt, hnear, hturn⟩
  · have hbehind : p.number = r.highest ∨ 32768 ≤ (Serial.distance r.highest p.number).toNat := by
      have htop := h.highest
      have hhighest := r.highest.toNat_lt
      rw [← UInt16.toNat_inj, Serial.distance, UInt16.toNat_sub]
      omega
    rw [advance_of_behind hbehind, max_eq_left hle]
    exact h
  · rw [max_eq_right (Int.le_of_lt hlt)] at hbound ⊢
    by_cases hsame : x / 65536 = top / 65536
    · exact h.later hlt hnear hsame hnumber
    · obtain ⟨hhigh, hlow⟩ := hturn.resolve_left hsame
      exact h.turn hlt hnear hbound hsame hhigh hlow hnumber

/-- Once the last number of a turn is the highest and no turn can be recognised, packets are only counted. -/
theorem Unrolled.stuck (h : Unrolled wrapHigh wrapLow start 65535 count r)
    (hmarks : wrapLow = 0 ∨ wrapHigh.toNat = 65535) (p : Sighting) :
    Unrolled wrapHigh wrapLow start 65535 (count + 1) (r.record p.source p.number p.mediaTime p.arrival) := by
  refine h.record ?_
  have hlast : r.highest.toNat = 65535 := by
    have htop := h.highest
    have hhighest := r.highest.toNat_lt
    omega
  rw [← h.markLow, ← h.markHigh] at hmarks
  rw [advance_of_last hlast hmarks]
  exact h

/-! ## A run of packets -/

/-- Whether `P` holds along a list of positions, each compared with the highest one before it. -/
def AllAlong (P : Int → Int → Prop) : Int → List Int → Prop
  | _, [] => True
  | top, x :: rest => P top x ∧ AllAlong P (max top x) rest

instance instDecidableAllAlong {P : Int → Int → Prop} [∀ top x, Decidable (P top x)] :
    ∀ top xs, Decidable (AllAlong P top xs)
  | _, [] => inferInstanceAs (Decidable True)
  | top, x :: rest =>
    have := instDecidableAllAlong (P := P) (max top x) rest
    inferInstanceAs (Decidable (P top x ∧ AllAlong P (max top x) rest))

theorem AllAlong.mono {P Q : Int → Int → Prop} (hPQ : ∀ top x, P top x → Q top x) : ∀ {top : Int} {xs : List Int},
    AllAlong P top xs → AllAlong Q top xs
  | _, [], _ => trivial
  | _, _ :: _, ⟨hx, hrest⟩ => ⟨hPQ _ _ hx, hrest.mono hPQ⟩

def highestOf (top : Int) (xs : List Int) : Int := xs.foldl max top

theorem le_highestOf : ∀ (xs : List Int) (top : Int), top ≤ highestOf top xs
  | [], top => Int.le_refl top
  | x :: rest, top => Int.le_trans (le_max_left top x) (le_highestOf rest (max top x))

/-- **A run of heeded packets** brings the highest position to the highest of theirs. -/
theorem Unrolled.run : ∀ {xs : List Int} {seen : List Sighting} {r : Reception} {top : Int} {count : Nat},
    Unrolled wrapHigh wrapLow start top count r → AllAlong (Heeded wrapHigh wrapLow) top xs →
    highestOf top xs < 2 ^ 32 → seen.map (·.number) = xs.map UInt16.ofInt →
    Unrolled wrapHigh wrapLow start (highestOf top xs) (count + seen.length) (r.recordAll seen)
  | [], [], _, _, _, h, _, _, _ => h
  | [], _ :: _, _, _, _, _, _, _, hseen => by cases hseen
  | _ :: _, [], _, _, _, _, _, _, hseen => by cases hseen
  | x :: rest, p :: seen, r, top, count, h, ⟨hx, hrest⟩, hbound, hseen => by
    obtain ⟨hp, hseen⟩ := List.cons.inj hseen
    have hnext := h.next hx (Int.lt_of_le_of_lt (le_highestOf rest _) hbound) hp
    have hrun := hnext.run hrest hbound hseen
    rw [Nat.add_right_comm] at hrun
    exact hrun

theorem Unrolled.run_stuck (hmarks : wrapLow = 0 ∨ wrapHigh.toNat = 65535) :
    ∀ {seen : List Sighting} {r : Reception} {count : Nat}, Unrolled wrapHigh wrapLow start 65535 count r →
      Unrolled wrapHigh wrapLow start 65535 (count + seen.length) (r.recordAll seen)
  | [], _, _, h => h
  | p :: seen, _, _, h => by
    have hrun : Unrolled wrapHigh wrapLow start 65535 (_ + 1 + seen.length) _ := (h.stuck hmarks p).run_stuck hmarks
    rw [Nat.add_right_comm] at hrun
    exact hrun

/-! ## What follows from it -/

/-- The word has room for the turns modulo 2^16. -/
theorem toNat_extendedHighest_eq (r : Reception) :
    r.extendedHighest.toNat = r.cycles.toNat % 65536 * 65536 + r.highest.toNat := by
  have hshift : r.cycles.toNat <<< 16 % 2 ^ 32 = (r.cycles.toNat % 65536) <<< 16 := by
    rw [Nat.shiftLeft_eq, Nat.shiftLeft_eq]
    omega
  rw [extendedHighest, UInt32.toNat_or, UInt32.toNat_shiftLeft, UInt16.toNat_toUInt32]
  rw [show (16 : UInt32).toNat % 32 = 16 from rfl, hshift, ← Nat.shiftLeft_add_eq_or_of_lt r.highest.toNat_lt,
    Nat.shiftLeft_eq]

theorem Unrolled.toNat_extendedHighest (h : Unrolled wrapHigh wrapLow start top count r) :
    (r.extendedHighest.toNat : Int) = top := by
  rw [toNat_extendedHighest_eq, Nat.mod_eq_of_lt h.cycles, ← h.highest]
  omega

theorem Unrolled.toNat_expected (h : Unrolled wrapHigh wrapLow start top count r) :
    (r.expected.toNat : Int) = top - start + 1 := by
  obtain ⟨source, hsource⟩ := Option.isSome_iff_exists.1 h.source
  have hextended := h.toNat_extendedHighest
  have hbase := h.base
  have hle := h.start_le
  have hword := r.extendedHighest.toNat_lt
  rw [expected, hsource]
  simp only [UInt64.toNat_sub, UInt64.toNat_add, UInt64.toNat_one, UInt32.toNat_toUInt64, UInt16.toNat_toUInt64]
  omega

/-- A difference of words, read with sign, is the difference of the numbers as far as it can be told. -/
theorem toInt_toInt64_sub (x y : UInt64) :
    (x - y).toInt64.toInt = ((x.toNat : Int) - y.toNat).bmod (2 ^ 64) := by
  have hword (w : UInt64) : w.toInt64.toInt = (w.toNat : Int).bmod (2 ^ 64) := BitVec.toInt_eq_toNat_bmod w.toBitVec
  rw [UInt64.toInt64_sub, Int64.toInt_sub, hword, hword, Int.bmod_sub_bmod, Int.sub_bmod_bmod]

theorem cumulativeLost_eq (r : Reception) :
    r.cumulativeLost = ((r.expected.toNat : Int) - r.received.toNat).bmod (2 ^ 64) :=
  toInt_toInt64_sub r.expected r.received

theorem Unrolled.cumulativeLost (h : Unrolled wrapHigh wrapLow start top count r) :
    r.cumulativeLost = (top - start + 1 - count).bmod (2 ^ 64) := by
  rw [cumulativeLost_eq, h.toNat_expected, h.received, UInt64.toNat_ofNat', Int.natCast_emod, ← Int.emod_bmod,
    Int.sub_emod_emod, Int.emod_bmod]

/-- No count that a run can reach makes the difference wrap. -/
theorem Unrolled.cumulativeLost_of_le (h : Unrolled wrapHigh wrapLow start top count r) (hcount : count ≤ 2 ^ 63) :
    r.cumulativeLost = top - start + 1 - count := by
  have htop := h.highest
  have hle := h.start_le
  have hcycles := h.cycles
  have hhighest := r.highest.toNat_lt
  have hbase := h.base
  refine h.cumulativeLost.trans (Int.bmod_eq_of_le ?_ ?_)
  · omega
  · omega

/-! ## Small jumps -/

/-- How far ahead a packet may be without a turn going unnoticed. -/
def leap (wrapHigh wrapLow : UInt16) : Nat := min (65535 - wrapHigh.toNat) wrapLow.toNat

/-- Whether a position is at most `d` above the highest one so far, or at most half of the number circle below it. -/
def IsNear (d : Nat) (top x : Int) : Prop := top < x ∧ x ≤ top + d ∨ x ≤ top ∧ top ≤ x + 2 ^ 15

instance (d : Nat) (top x : Int) : Decidable (IsNear d top x) := inferInstanceAs (Decidable (_ ∨ _))

theorem heeded_of_isNear (hmarks : wrapLow < wrapHigh) (h : IsNear (leap wrapHigh wrapLow) top x) :
    Heeded wrapHigh wrapLow top x := by
  rw [UInt16.lt_iff_toNat_lt] at hmarks
  unfold IsNear leap at h
  unfold Heeded
  omega

theorem le_highestOf_of_mem : ∀ {xs : List Int} {x : Int} (top : Int), x ∈ xs → x ≤ highestOf top xs
  | y :: rest, x, top, hx => by
    rcases List.mem_cons.1 hx with rfl | hx
    · exact Int.le_trans (le_max_right top x) (le_highestOf rest _)
    · exact le_highestOf_of_mem (max top y) hx

def positions (start top : Int) : Finset Int := (Finset.range (top - start + 1).toNat).image fun i : Nat => start + i

theorem mem_positions_iff {x : Int} : x ∈ positions start top ↔ start ≤ x ∧ x ≤ top := by
  rw [positions, Finset.mem_image]
  constructor
  · rintro ⟨i, hi, rfl⟩
    rw [Finset.mem_range] at hi
    omega
  · intro hx
    exact ⟨(x - start).toNat, Finset.mem_range.2 (by omega), by omega⟩

theorem card_positions (start top : Int) : (positions start top).card = (top - start + 1).toNat := by
  have hinjective : Function.Injective fun i : Nat => start + (i : Int) := fun i j h => by
    have hij : start + (i : Int) = start + j := h
    omega
  rw [positions, Finset.card_image_of_injective _ hinjective, Finset.card_range]

/-- The positions of an interval that are not among the given ones. -/
def missing (start top : Int) (xs : List Int) : Finset Int := positions start top \ xs.toFinset

/-- How many of the given positions repeat another one. -/
def repeats (xs : List Int) : Nat := xs.length - xs.toFinset.card

/-- Every position of an interval is missing or given, and what is given more than once is repeated. -/
theorem missing_sub_repeats {xs : List Int} (h : ∀ x ∈ xs, start ≤ x ∧ x ≤ top) (hle : start ≤ top) :
    ((missing start top xs).card : Int) - repeats xs = top - start + 1 - xs.length := by
  have hsubset : xs.toFinset ⊆ positions start top := fun x hx => mem_positions_iff.2 (h x (List.mem_toFinset.1 hx))
  have hgiven := Finset.card_le_card hsubset
  have hlength := xs.toFinset_card_le
  rw [missing, repeats, Finset.card_sdiff_of_subset hsubset]
  rw [card_positions] at hgiven ⊢
  omega

/-- **Loss is exact while jumps are small.**  When the numbers of the packets are those of positions, the first of them
in the first turn and each one near the highest before it, then the extended highest number is the highest position,
and what is expected is counted from the first position on.  What is lost is expected less counted, in 64 bits with
sign, and that is what is missing less what is repeated, if nothing comes from before the first position. -/
theorem recordAll_exact (hmarks : wrapLow < wrapHigh) {seen : List Sighting} {first : Int} {rest : List Int}
    (hseen : seen.map (·.number) = (first :: rest).map UInt16.ofInt) (hfirst : 0 ≤ first ∧ first < 65536)
    (hnear : AllAlong (IsNear (leap wrapHigh wrapLow)) first rest) (hbound : highestOf first rest < 2 ^ 32) :
    let r := ({ wrapHigh, wrapLow } : Reception).recordAll seen
    let top := highestOf first rest
    (r.extendedHighest.toNat : Int) = top ∧ (r.expected.toNat : Int) = top - first + 1 ∧
      r.cumulativeLost = (top - first + 1 - seen.length).bmod (2 ^ 64) ∧
      (seen.length ≤ 2 ^ 63 → r.cumulativeLost = top - first + 1 - seen.length) ∧
      ((∀ x ∈ rest, first ≤ x) →
        top - first + 1 - seen.length = (missing first top (first :: rest)).card - repeats (first :: rest)) := by
  obtain ⟨p, seen, rfl⟩ : ∃ p tail, seen = p :: tail :=
    List.exists_cons_of_ne_nil fun hnil => by rw [hnil] at hseen; cases hseen
  obtain ⟨hp, hrest⟩ := List.cons.inj hseen
  have hlength : seen.length = rest.length := by simpa using congrArg List.length hrest
  have hnumber : (p.number.toNat : Int) = first := by
    rw [show p.number = UInt16.ofInt first from hp, toNat_ofInt]
    omega
  have hunrolled := unrolled_first wrapHigh wrapLow p
  rw [hnumber] at hunrolled
  have h := hunrolled.run (hnear.mono fun _ _ => heeded_of_isNear hmarks) hbound hrest
  rw [Nat.add_comm] at h
  have hle := le_highestOf rest first
  intro r top
  refine ⟨h.toNat_extendedHighest, h.toNat_expected, h.cumulativeLost, h.cumulativeLost_of_le, fun hafter => ?_⟩
  · rw [missing_sub_repeats (fun x hx => ?_) hle, List.length_cons, List.length_cons, hlength]
    rcases List.mem_cons.1 hx with rfl | hx
    · exact ⟨Int.le_refl x, hle⟩
    · exact ⟨hafter x hx, le_highestOf_of_mem first hx⟩

/-- Packets on both sides of the end of a turn, in no order, one of them twice and one from before the first. -/
theorem recordAll_exact_across_turn :
    let seen : List Sighting := [65534, 0, 65535, 65535, 3, 65533].map fun number => ⟨7, number, 0, 0⟩
    let r := ({} : Reception).recordAll seen
    (r.extendedHighest.toNat : Int) = 65539 ∧ (r.expected.toNat : Int) = 6 ∧ r.cumulativeLost = 0 := by
  intro seen r
  have hmarks : (5000 : UInt16) < 60000 := by decide
  have hseen : seen.map (·.number) = (65534 :: [65536, 65535, 65535, 65539, 65533]).map UInt16.ofInt := by decide
  have h := recordAll_exact hmarks hseen (by decide) (by decide) (by decide)
  exact ⟨h.1, h.2.1, h.2.2.2.1 (by decide)⟩

/-! ## A stream without loss -/

theorem ofInt_add_one (x : Int) : UInt16.ofInt x + 1 = UInt16.ofInt (x + 1) := by
  have hone : UInt16.ofInt 1 = 1 := rfl
  rw [UInt16.ofInt_add, hone]

/-- Numbers given out one after another are those of positions one after another. -/
theorem run_ofInt : ∀ (n : Nat) (x : Int),
    Serial.run (UInt16.ofInt x) n = (List.iterate (· + 1) x n).map UInt16.ofInt
  | 0, _ => rfl
  | n + 1, x => by
    rw [Serial.run, ofInt_add_one, run_ofInt n (x + 1)]
    rfl

theorem highestOf_iterate : ∀ (n : Nat) (top : Int), highestOf top (List.iterate (· + 1) (top + 1) n) = top + n
  | 0, top => (Int.add_zero top).symm
  | n + 1, top => by
    have ih := highestOf_iterate n (top + 1)
    show highestOf (max top (top + 1)) (List.iterate (· + 1) (top + 1 + 1) n) = top + (n + 1 : Nat)
    rw [max_eq_right (Int.le_of_lt (Int.lt_succ top)), ih]
    omega

theorem allAlong_iterate {P : Int → Int → Prop} : ∀ (n : Nat) (top : Int),
    (∀ i : Nat, i < n → P (top + i) (top + i + 1)) → AllAlong P top (List.iterate (· + 1) (top + 1) n)
  | 0, _, _ => trivial
  | n + 1, top, h => by
    have hfirst := h 0 (Nat.succ_pos n)
    rw [Int.natCast_zero, Int.add_zero] at hfirst
    refine ⟨hfirst, ?_⟩
    rw [max_eq_right (Int.le_of_lt (Int.lt_succ top))]
    refine allAlong_iterate n (top + 1) fun i hi => ?_
    have hlater := h (i + 1) (Nat.succ_lt_succ hi)
    rw [Int.natCast_add, Int.natCast_one, Int.add_comm (i : Int) 1, ← Int.add_assoc] at hlater
    exact hlater

/-- Whether marks let a turn be recognised: there are numbers above the one and below the other. -/
def LetTurn (wrapHigh wrapLow : UInt16) : Prop := 0 < wrapLow ∧ wrapHigh < 65535

instance (wrapHigh wrapLow : UInt16) : Decidable (LetTurn wrapHigh wrapLow) := inferInstanceAs (Decidable (_ ∧ _))

/-- Packets that come one after another from `b` on are all heeded, if turns are recognised or there is none. -/
theorem unrolled_in_order (hmarks : wrapLow < wrapHigh) {b : Serial} {seen : List Sighting} (hne : seen ≠ [])
    (hseen : seen.map (·.number) = Serial.run b seen.length) (hbound : b.toNat + seen.length ≤ 2 ^ 32)
    (hturn : LetTurn wrapHigh wrapLow ∨ b.toNat + seen.length ≤ 65536) :
    Unrolled wrapHigh wrapLow b.toNat (b.toNat + seen.length - 1) seen.length
      (({ wrapHigh, wrapLow } : Reception).recordAll seen) := by
  obtain ⟨p, seen, rfl⟩ := List.exists_cons_of_ne_nil hne
  obtain ⟨hp, hrest⟩ := List.cons.inj hseen
  obtain rfl : p.number = b := hp
  have hnumber : p.number = UInt16.ofInt p.number.toNat := by
    have hresidue := toNat_ofInt p.number.toNat
    have hlt := p.number.toNat_lt
    rw [← UInt16.toNat_inj]
    omega
  rw [hnumber, ofInt_add_one, run_ofInt] at hrest
  have hheeded : AllAlong (Heeded wrapHigh wrapLow) p.number.toNat
      (List.iterate (· + 1) (p.number.toNat + 1 : Int) seen.length) := by
    refine allAlong_iterate seen.length p.number.toNat fun i hi => ?_
    rw [List.length_cons] at hturn
    rcases hturn with ⟨hlow, hhigh⟩ | hshort
    · refine heeded_of_isNear hmarks (.inl ⟨Int.lt_succ _, ?_⟩)
      rw [UInt16.lt_iff_toNat_lt, UInt16.toNat_zero] at hlow
      rw [UInt16.lt_iff_toNat_lt, show (65535 : UInt16).toNat = 65535 from rfl] at hhigh
      rw [leap]
      omega
    · refine .inr ⟨Int.lt_succ _, by omega, .inl ?_⟩
      omega
  have hfirst := unrolled_first wrapHigh wrapLow p
  have htop := highestOf_iterate seen.length p.number.toNat
  rw [List.length_cons] at hbound
  have h := hfirst.run hheeded (by rw [htop]; omega) hrest
  rw [htop, Nat.add_comm] at h
  rw [List.length_cons, Int.natCast_succ, ← Int.add_assoc, Int.add_sub_cancel]
  exact h

theorem take_run : ∀ {k n : Nat} (s : Serial), k ≤ n → (Serial.run s n).take k = Serial.run s k
  | 0, _, _, _ => rfl
  | _ + 1, _ + 1, s, h => congrArg (s :: ·) (take_run (s + 1) (Nat.le_of_succ_le_succ h))

/-- Packets that come one after another beyond the end of a turn that cannot be recognised: the highest number stays
the last one of the turn. -/
theorem unrolled_past_turn (hmarks : wrapLow < wrapHigh) {b : Serial} {seen : List Sighting}
    (hseen : seen.map (·.number) = Serial.run b seen.length) (hturn : ¬LetTurn wrapHigh wrapLow)
    (hlong : 65536 < b.toNat + seen.length) :
    Unrolled wrapHigh wrapLow b.toNat 65535 seen.length (({ wrapHigh, wrapLow } : Reception).recordAll seen) := by
  have hb := b.toNat_lt
  -- The packets up to the last number of the turn are counted as they should be, and no other one is.
  have hlength : (seen.take (65536 - b.toNat)).length = 65536 - b.toNat := List.length_take_of_le (by omega)
  have htaken : (seen.take (65536 - b.toNat)).map (·.number) = Serial.run b (seen.take (65536 - b.toNat)).length := by
    rw [List.map_take, hseen, take_run b (by omega), hlength]
  have hbefore := unrolled_in_order hmarks (List.ne_nil_of_length_pos (by omega)) htaken (by omega) (.inr (by omega))
  rw [hlength, show (b.toNat : Int) + (65536 - b.toNat : Nat) - 1 = 65535 by omega] at hbefore
  have hstuck : wrapLow = 0 ∨ wrapHigh.toNat = 65535 := by
    unfold LetTurn at hturn
    rw [UInt16.lt_iff_toNat_lt, UInt16.lt_iff_toNat_lt, UInt16.toNat_zero,
      show (65535 : UInt16).toNat = 65535 from rfl] at hturn
    rw [← UInt16.toNat_inj, UInt16.toNat_zero]
    have := wrapHigh.toNat_lt
    omega
  have hall : Unrolled wrapHigh wrapLow b.toNat 65535 (65536 - b.toNat + (seen.drop (65536 - b.toNat)).length) _ :=
    hbefore.run_stuck hstuck
  rw [List.length_drop, show 65536 - b.toNat + (seen.length - (65536 - b.toNat)) = seen.length by omega] at hall
  rw [← recordAll_append, List.take_append_drop] at hall
  exact hall

theorem create_of_validate {settings : ReceiverSettings} (h : settings.validate = .ok ()) (cipher : Cipher) :
    ∃ r, Receiver.create settings cipher = .ok r ∧
      r.reception = { wrapHigh := settings.wrapHigh, wrapLow := settings.wrapLow } := by
  unfold Receiver.create
  rw [h]
  exact ⟨_, rfl, rfl⟩

theorem marks_of_validate {settings : ReceiverSettings} (h : settings.validate = .ok ()) :
    settings.wrapLow < settings.wrapHigh := by
  have hfault : settings.fault? = none := by
    unfold ReceiverSettings.validate at h
    split at h
    · assumption
    · cases h
  refine UInt16.not_le.1 fun hle => ?_
  rw [ReceiverSettings.fault?, if_pos hle] at hfault
  split at hfault <;> cases hfault

/-- **A stream without loss, for every setting that is accepted.**  It is counted as one without loss iff its numbers
do not pass the end of a turn or the marks let a turn be recognised.  Otherwise the highest number stays the last one of
the turn, and what comes later seems to have come twice. -/
theorem counts_perfectly_iff {settings : ReceiverSettings} (hvalid : settings.validate = .ok ()) (cipher : Cipher)
    {b : Serial} {seen : List Sighting} (hne : seen ≠ [])
    (hseen : seen.map (·.number) = Serial.run b seen.length) (hbound : b.toNat + seen.length ≤ 2 ^ 32) :
    ∃ r, Receiver.create settings cipher = .ok r ∧
      let counted := r.reception.recordAll seen
      (counted.extendedHighest.toNat = b.toNat + seen.length - 1 ∧ counted.expected.toNat = seen.length ∧
          counted.cumulativeLost = 0 ↔
        LetTurn settings.wrapHigh settings.wrapLow ∨ b.toNat + seen.length ≤ 65536) ∧
      (¬(LetTurn settings.wrapHigh settings.wrapLow ∨ b.toNat + seen.length ≤ 65536) →
        counted.extendedHighest.toNat = 65535 ∧ counted.expected.toNat = 65536 - b.toNat ∧
          counted.cumulativeLost = 65536 - (b.toNat + seen.length)) := by
  obtain ⟨r, hr, hreception⟩ := create_of_validate hvalid cipher
  have hmarks := marks_of_validate hvalid
  have hpos := List.length_pos_of_ne_nil hne
  have hb := b.toNat_lt
  refine ⟨r, hr, ?_⟩
  rw [hreception]
  intro counted
  by_cases hturn : LetTurn settings.wrapHigh settings.wrapLow ∨ b.toNat + seen.length ≤ 65536
  · have h : Unrolled _ _ _ _ _ counted := unrolled_in_order hmarks hne hseen hbound hturn
    have hextended := h.toNat_extendedHighest
    have hexpected := h.toNat_expected
    have hlost := h.cumulativeLost_of_le (by omega)
    refine ⟨iff_of_true ⟨by omega, by omega, by omega⟩ hturn, fun hnot => absurd hturn hnot⟩
  · have hpast := not_or.1 hturn
    have h : Unrolled _ _ _ _ _ counted := unrolled_past_turn hmarks hseen hpast.1 (Nat.lt_of_not_le hpast.2)
    have hextended := h.toNat_extendedHighest
    have hexpected := h.toNat_expected
    have hlost := h.cumulativeLost_of_le (by omega)
    refine ⟨iff_of_false ?_ hturn, fun _ => ⟨by omega, by omega, by omega⟩⟩
    rintro ⟨-, hcounted, -⟩
    omega

/-- The default marks let a turn be recognised. -/
theorem counts_perfectly_across_turn : ({} : ReceiverSettings).validate = .ok () ∧
    ∃ r, Receiver.create {} .identity = .ok r ∧
      let counted := r.reception.recordAll ((Serial.run 65534 4).map fun number => ⟨7, number, 0, 0⟩)
      counted.extendedHighest.toNat = 65537 ∧ counted.expected.toNat = 4 ∧ counted.cumulativeLost = 0 := by
  have hvalid : ({} : ReceiverSettings).validate = .ok () := rfl
  have hseen : (((Serial.run 65534 4).map fun number => ⟨7, number, 0, 0⟩ : List Sighting)).map (·.number) =
      Serial.run 65534 4 := by decide
  obtain ⟨r, hr, hcounts, -⟩ := counts_perfectly_iff hvalid .identity (by decide) hseen (by decide)
  exact ⟨hvalid, r, hr, hcounts.2 (.inl (by decide))⟩

/-- A low mark of zero is accepted, but a stream without loss that goes on after the last number of a turn has one
packet expected where two have come, so that one less than none is lost. -/
theorem misses_turn : ({ wrapLow := 0 } : ReceiverSettings).validate = .ok () ∧
    ∃ r, Receiver.create { wrapLow := 0 } .identity = .ok r ∧
      let counted := r.reception.recordAll ((Serial.run 65535 2).map fun number => ⟨7, number, 0, 0⟩)
      counted.extendedHighest.toNat = 65535 ∧ counted.expected.toNat = 1 ∧ counted.cumulativeLost = -1 :=
  ⟨rfl, _, rfl, by decide +kernel⟩

end Reception
end VideoTransport
