import Mathlib.Data.List.Induction
import VideoTransport.Proofs.Extension
/-!
# Totals — how long what has been counted only grows

Turns and highest number share a word of thirty-two bits, which has room for the turns modulo 2^16 only.  While fewer
turns have been recognised, the word is a position that never falls, and what is expected is counted from the first
number on without going below zero.  The packet that completes 2^16 turns makes the word fall; what is expected goes
below zero whenever the word is again in its first turn and short of the first number (`Reception.totals_grow_iff`).
Three packets are enough for a turn (`Reception.circling`).
-/
namespace VideoTransport
namespace Reception

variable {r : Reception} {b s : Serial} {n : Nat} {p : Sighting}

/-! ## One packet -/

/-- Whether a number is taken for one of the next turn. -/
def Turns (r : Reception) (s : Serial) : Prop :=
  s < r.highest ∧ Serial.distance r.highest s < Serial.half ∧ r.wrapHigh < r.highest ∧ s < r.wrapLow

instance (r : Reception) (s : Serial) : Decidable (r.Turns s) := inferInstanceAs (Decidable (_ ∧ _))

/-- **One number** begins a turn, or leaves the turns alone and does not lower the highest number. -/
theorem advance_turns (r : Reception) (s : Serial) :
    r.Turns s ∧ r.advance s = { r with cycles := r.cycles + 1, highest := s } ∨
      ¬r.Turns s ∧ ∃ highest, r.highest ≤ highest ∧ r.advance s = { r with highest } := by
  unfold advance Turns
  by_cases hahead : Serial.distance r.highest s ≠ 0 ∧ Serial.distance r.highest s < Serial.half
  · simp only [if_pos hahead]
    by_cases hlater : r.highest < s
    · rw [if_pos hlater]
      exact .inr ⟨fun h => UInt16.lt_asymm hlater h.1, s, UInt16.le_of_lt hlater, rfl⟩
    · rw [if_neg hlater]
      have hsmaller : s < r.highest := by
        have hne : s ≠ r.highest := by
          rintro rfl
          exact hahead.1 (UInt16.sub_self _)
        exact UInt16.lt_of_le_of_ne (UInt16.not_lt.1 hlater) hne
      by_cases hmarks : r.wrapHigh < r.highest ∧ s < r.wrapLow
      · rw [if_pos hmarks]
        exact .inl ⟨⟨hsmaller, hahead.2, hmarks⟩, rfl⟩
      · rw [if_neg hmarks]
        exact .inr ⟨fun h => hmarks h.2.2, r.highest, UInt16.le_refl _, rfl⟩
  · simp only [if_neg hahead]
    refine .inr ⟨fun ⟨hsmaller, hnear, _⟩ => hahead ⟨fun hzero => ?_, hnear⟩, r.highest, UInt16.le_refl _, rfl⟩
    have hdistance := congrArg UInt16.toNat hzero
    rw [Serial.distance, UInt16.toNat_sub, UInt16.toNat_zero] at hdistance
    rw [UInt16.lt_iff_toNat_lt] at hsmaller
    have := r.highest.toNat_lt
    omega

/-! ## Turns of a run -/

/-- How many turns of the circle are recognised in a run. -/
def turns : Reception → List Sighting → Nat
  | _, [] => 0
  | r, p :: rest =>
    (if r.Turns p.number then 1 else 0) + turns (r.record p.source p.number p.mediaTime p.arrival) rest

theorem turns_append : ∀ (seen later : List Sighting) (r : Reception),
    r.turns (seen ++ later) = r.turns seen + (r.recordAll seen).turns later
  | [], _, _ => (Nat.zero_add _).symm
  | p :: rest, later, r => by
    have ih := turns_append rest later (r.record p.source p.number p.mediaTime p.arrival)
    rw [List.cons_append, turns, ih, turns, Nat.add_assoc]
    rfl

theorem turns_append_singleton (r : Reception) (seen : List Sighting) (p : Sighting) :
    r.turns (seen ++ [p]) = r.turns seen + if (r.recordAll seen).Turns p.number then 1 else 0 :=
  turns_append seen [p] r

/-- The reception has counted from the number `b` on and has recognised `n` turns since. -/
structure Revolved (b : Serial) (n : Nat) (r : Reception) : Prop where
  source : r.source.isSome = true
  base : r.base = b
  cycles : r.cycles = UInt32.ofNat n
  le_highest : n = 0 → b ≤ r.highest

/-- The highest position, without bound. -/
def place (n : Nat) (r : Reception) : Nat := n * 65536 + r.highest.toNat

theorem revolved_first (wrapHigh wrapLow : UInt16) (p : Sighting) :
    Revolved p.number 0 (({ wrapHigh, wrapLow } : Reception).record p.source p.number p.mediaTime p.arrival) :=
  ⟨rfl, rfl, rfl, fun _ => UInt16.le_refl _⟩

/-- **One packet** counts its turn, if it begins one, and never lowers the position. -/
theorem Revolved.next (h : Revolved b n r) (p : Sighting) :
    let n' := n + if r.Turns p.number then 1 else 0
    let r' := r.record p.source p.number p.mediaTime p.arrival
    Revolved b n' r' ∧ place n r ≤ place n' r' := by
  obtain ⟨jitter, lastTransit, hrecord⟩ := record_of_isSome h.source p
  rcases r.advance_turns p.number with ⟨hturn, hadvance⟩ | ⟨hturn, highest, hle, hadvance⟩
  · simp only [hrecord, hadvance, if_pos hturn]
    refine ⟨⟨h.source, h.base, ?_, fun hn => absurd hn (Nat.succ_ne_zero n)⟩, ?_⟩
    · rw [h.cycles, UInt32.ofNat_add]
      rfl
    · have := r.highest.toNat_lt
      simp only [place]
      omega
  · simp only [hrecord, hadvance, if_neg hturn]
    refine ⟨⟨h.source, h.base, h.cycles, fun hn => UInt16.le_trans (h.le_highest hn) hle⟩, ?_⟩
    rw [UInt16.le_iff_toNat_le] at hle
    exact Nat.add_le_add_left hle _

theorem Revolved.run : ∀ (seen : List Sighting) {r : Reception} {n : Nat}, Revolved b n r →
    Revolved b (n + r.turns seen) (r.recordAll seen)
  | [], _, _, h => h
  | p :: seen, r, n, h => by
    have hrun := (h.next p).1.run seen
    rw [Nat.add_assoc] at hrun
    exact hrun

theorem revolved_recordAll (wrapHigh wrapLow : UInt16) (p : Sighting) (seen : List Sighting) :
    let r : Reception := { wrapHigh, wrapLow }
    Revolved p.number (r.turns (p :: seen)) (r.recordAll (p :: seen)) := by
  intro r
  have hrun := (revolved_first wrapHigh wrapLow p).run seen
  have hfirst : ¬r.Turns p.number := fun h => Nat.not_lt_zero _ (UInt16.lt_iff_toNat_lt.1 h.1)
  rw [turns, if_neg hfirst]
  exact hrun

/-! ## Totals -/

/-- Whether what is expected is a difference below zero. -/
def Underflows (r : Reception) : Prop := r.extendedHighest.toNat + 1 < r.base.toNat

instance (r : Reception) : Decidable r.Underflows := inferInstanceAs (Decidable (_ < _))

theorem Revolved.toNat_extendedHighest (h : Revolved b n r) :
    r.extendedHighest.toNat = n % 65536 * 65536 + r.highest.toNat := by
  rw [toNat_extendedHighest_eq, h.cycles, UInt32.toNat_ofNat']
  omega

theorem Revolved.underflows_iff (h : Revolved b n r) :
    r.Underflows ↔ 0 < n ∧ 65536 ∣ n ∧ r.highest.toNat + 1 < b.toNat := by
  have hbase := b.toNat_lt
  rw [Underflows, h.toNat_extendedHighest, h.base]
  constructor
  · intro hlt
    have hpos : n ≠ 0 := fun hzero => by
      have hle := UInt16.le_iff_toNat_le.1 (h.le_highest hzero)
      omega
    omega
  · rintro ⟨-, hdvd, hlt⟩
    omega

/-- Unless it underflows, what is expected is counted from the first number on. -/
theorem toNat_expected_of_exact (hsource : r.source.isSome = true) (hexact : ¬r.Underflows) :
    r.expected.toNat = r.extendedHighest.toNat + 1 - r.base.toNat := by
  obtain ⟨source, hsource⟩ := Option.isSome_iff_exists.1 hsource
  rw [Underflows, Nat.not_lt] at hexact
  have hword := r.extendedHighest.toNat_lt
  rw [expected, hsource]
  simp only [UInt64.toNat_sub, UInt64.toNat_add, UInt64.toNat_one, UInt32.toNat_toUInt64, UInt16.toNat_toUInt64]
  omega

theorem Revolved.toNat_expected (h : Revolved b n r) (hexact : ¬r.Underflows) :
    r.expected.toNat = r.extendedHighest.toNat + 1 - b.toNat := by
  rw [toNat_expected_of_exact h.source hexact, h.base]

/-- What a further packet does to the totals as long as they hold. -/
structure Grows (before after : Reception) : Prop where
  exact : ¬after.Underflows
  highest : before.extendedHighest ≤ after.extendedHighest
  expected : before.expected ≤ after.expected

theorem grows_first (wrapHigh wrapLow : UInt16) (p : Sighting) :
    let r : Reception := { wrapHigh, wrapLow }
    Grows r (r.record p.source p.number p.mediaTime p.arrival) := by
  intro r
  have hfirst := revolved_first wrapHigh wrapLow p
  refine ⟨fun h => Nat.lt_irrefl 0 (hfirst.underflows_iff.1 h).1, ?_, ?_⟩
  · rw [show r.extendedHighest = 0 from (by decide : (0 : UInt32) <<< 16 ||| (0 : Serial).toUInt32 = 0)]
    exact UInt32.le_iff_toNat_le.2 (Nat.zero_le _)
  · exact UInt64.le_iff_toNat_le.2 (Nat.zero_le _)

/-- **While fewer than 2^16 turns have been recognised**, a packet makes no total fall. -/
theorem Revolved.grows (h : Revolved b n r) (hn : n + (if r.Turns p.number then 1 else 0) < 65536) :
    Grows r (r.record p.source p.number p.mediaTime p.arrival) := by
  obtain ⟨hnext, hplace⟩ := h.next p
  have hexact : ¬r.Underflows := by
    rw [h.underflows_iff]
    omega
  have hexact' : ¬(r.record p.source p.number p.mediaTime p.arrival).Underflows := by
    rw [hnext.underflows_iff]
    omega
  have hword : r.extendedHighest.toNat ≤ (r.record p.source p.number p.mediaTime p.arrival).extendedHighest.toNat := by
    rw [h.toNat_extendedHighest, hnext.toNat_extendedHighest, Nat.mod_eq_of_lt hn, Nat.mod_eq_of_lt (by omega)]
    exact hplace
  refine ⟨hexact', UInt32.le_iff_toNat_le.2 hword, UInt64.le_iff_toNat_le.2 ?_⟩
  rw [h.toNat_expected hexact, hnext.toNat_expected hexact']
  omega

/-- **The packet that completes 2^16 turns** makes the highest position fall. -/
theorem Revolved.falls (h : Revolved b n r) (hturn : r.Turns p.number) (hn : 65536 ∣ n + 1) :
    (r.record p.source p.number p.mediaTime p.arrival).extendedHighest < r.extendedHighest := by
  have hnext := (h.next p).1
  rw [if_pos hturn] at hnext
  have hhighest := (r.record p.source p.number p.mediaTime p.arrival).highest.toNat_lt
  rw [UInt32.lt_iff_toNat_lt, h.toNat_extendedHighest, hnext.toNat_extendedHighest]
  omega

theorem grows_of_turns (wrapHigh wrapLow : UInt16) (earlier : List Sighting) (p : Sighting) :
    let r : Reception := { wrapHigh, wrapLow }
    r.turns (earlier ++ [p]) < 65536 → Grows (r.recordAll earlier) (r.recordAll (earlier ++ [p])) := by
  intro r hfew
  rw [turns_append_singleton] at hfew
  rw [recordAll_append]
  cases earlier with
  | nil => exact grows_first wrapHigh wrapLow p
  | cons q earlier => exact (revolved_recordAll wrapHigh wrapLow q earlier).grows hfew

/-- A run that has recognised turns has recognised any one of them with some packet. -/
theorem exists_turn (r : Reception) : ∀ {seen : List Sighting}, n < r.turns seen →
    ∃ earlier p, earlier ++ [p] <+: seen ∧ r.turns earlier = n ∧ (r.recordAll earlier).Turns p.number := by
  intro seen
  induction seen using List.reverseRecOn with
  | nil => exact fun h => absurd h (Nat.not_lt_zero n)
  | append_singleton seen p ih =>
    intro h
    rw [turns_append_singleton] at h
    by_cases hn : n < r.turns seen
    · obtain ⟨earlier, q, hprefix, hturn⟩ := ih hn
      exact ⟨earlier, q, hprefix.trans (List.prefix_append seen [p]), hturn⟩
    · have hturn : (r.recordAll seen).Turns p.number := by
        by_contra hnot
        rw [if_neg hnot] at h
        omega
      rw [if_pos hturn] at h
      exact ⟨seen, p, List.prefix_rfl, by omega, hturn⟩

theorem turns_mono {earlier seen : List Sighting} (h : earlier <+: seen) (r : Reception) :
    r.turns earlier ≤ r.turns seen := by
  obtain ⟨later, rfl⟩ := h
  rw [turns_append]
  exact Nat.le_add_right _ _

/-- **How long totals only grow.**  Whatever packets come, no total falls and nothing underflows with any of them if and
only if fewer than 2^16 turns are recognised.  At the end what is expected underflows if and only if the turns are a
multiple of 2^16, but not none, and the highest number is short of the first one. -/
theorem totals_grow_iff (wrapHigh wrapLow : UInt16) (seen : List Sighting) :
    let r : Reception := { wrapHigh, wrapLow }
    let after := r.recordAll seen
    ((∀ earlier p, earlier ++ [p] <+: seen → Grows (r.recordAll earlier) (r.recordAll (earlier ++ [p]))) ↔
        r.turns seen < 65536) ∧
      (after.Underflows ↔ 0 < r.turns seen ∧ 65536 ∣ r.turns seen ∧ after.highest.toNat + 1 < after.base.toNat) := by
  intro r after
  constructor
  · constructor
    · intro hgrows
      by_contra hmany
      obtain ⟨earlier, p, hprefix, hn, hturn⟩ := r.exists_turn (show 65535 < r.turns seen by omega)
      have hhighest := (hgrows earlier p hprefix).highest
      cases earlier with
      | nil => cases hn
      | cons q earlier =>
        have hrevolved := revolved_recordAll wrapHigh wrapLow q earlier
        have hfalls := hrevolved.falls hturn ⟨1, congrArg (· + 1) hn⟩
        rw [recordAll_append] at hhighest
        exact UInt32.lt_irrefl _ (UInt32.lt_of_le_of_lt hhighest hfalls)
    · intro hfew earlier p hprefix
      exact grows_of_turns wrapHigh wrapLow earlier p (Nat.lt_of_le_of_lt (r.turns_mono hprefix) hfew)
  · cases seen with
    | nil => exact iff_of_false (Nat.not_lt_zero _) fun h => Nat.lt_irrefl 0 h.1
    | cons p seen =>
      have hrevolved := revolved_recordAll wrapHigh wrapLow p seen
      have hunderflows := hrevolved.underflows_iff
      rw [← hrevolved.base] at hunderflows
      exact hunderflows

/-! ## Three packets a turn -/

/-- The reception has the default marks, and its highest number is `s`. -/
structure StandsAt (s : Serial) (r : Reception) : Prop where
  markHigh : r.wrapHigh = 60000
  markLow : r.wrapLow = 5000
  source : r.source.isSome = true
  highest : r.highest = s

theorem StandsAt.record (h : r.source.isSome = true) (hadvance : StandsAt s (r.advance p.number)) :
    StandsAt s (r.record p.source p.number p.mediaTime p.arrival) := by
  obtain ⟨_, _, hrecord⟩ := record_of_isSome h p
  rw [hrecord]
  exact ⟨hadvance.markHigh, hadvance.markLow, hadvance.source, hadvance.highest⟩

theorem StandsAt.later (h : StandsAt s r) (hlater : s < p.number) (hnear : p.number.toNat < s.toNat + 32768) :
    StandsAt p.number (r.record p.source p.number p.mediaTime p.arrival) ∧ ¬r.Turns p.number := by
  obtain rfl := h.highest
  refine ⟨.record h.source ?_, fun hturn => UInt16.lt_asymm hlater hturn.1⟩
  rw [advance_of_later hlater hnear]
  exact ⟨h.markHigh, h.markLow, h.source, rfl⟩

theorem StandsAt.turn (h : StandsAt s r) (hfar : p.number.toNat + 32768 < s.toNat) (hhigh : 60000 < s)
    (hlow : p.number < 5000) :
    StandsAt p.number (r.record p.source p.number p.mediaTime p.arrival) ∧ r.Turns p.number := by
  obtain rfl := h.highest
  rw [← h.markHigh] at hhigh
  rw [← h.markLow] at hlow
  have hadvance := advance_of_turn hfar hhigh hlow
  constructor
  · refine .record h.source ?_
    rw [hadvance]
    exact ⟨h.markHigh, h.markLow, h.source, rfl⟩
  · rcases r.advance_turns p.number with ⟨hturn, -⟩ | ⟨-, highest, hle, hstays⟩
    · exact hturn
    · have hsame : p.number = highest := congrArg Reception.highest (hadvance.symm.trans hstays)
      rw [← hsame, UInt16.le_iff_toNat_le] at hle
      omega

def sight (number : Serial) : Sighting := ⟨1, number, 0, 0⟩

/-- Three packets that go once round the circle. -/
def lap : List Sighting := [sight 32767, sight 65534, sight 0]

/-- A packet numbered `b`, and then `n` times round the circle. -/
def circling (b : Serial) (n : Nat) : List Sighting := sight b :: (List.replicate n lap).flatten

theorem Revolved.lap (h : Revolved b n r) (hstands : StandsAt s r) (hs : s < 32767) :
    (Revolved b n (r.recordAll (lap.take 2)) ∧ StandsAt 65534 (r.recordAll (lap.take 2))) ∧
      Revolved b (n + 1) (r.recordAll lap) ∧ StandsAt 0 (r.recordAll lap) := by
  obtain ⟨hfirst, hfirstTurn⟩ := hstands.later (p := sight 32767) hs (Nat.lt_add_left _ (by decide))
  obtain ⟨hsecond, hsecondTurn⟩ := hfirst.later (p := sight 65534) (by decide) (by decide)
  obtain ⟨hthird, hthirdTurn⟩ := hsecond.turn (p := sight 0) (by decide) (by decide) (by decide)
  have hshort : r.turns (Reception.lap.take 2) = 0 := by
    simp only [Reception.lap, List.take, turns, if_neg hfirstTurn, if_neg hsecondTurn]
  have hwhole : r.turns Reception.lap = 1 := by
    simp only [Reception.lap, turns, if_neg hfirstTurn, if_neg hsecondTurn, if_pos hthirdTurn]
  have hshortRun := h.run (Reception.lap.take 2)
  have hwholeRun := h.run Reception.lap
  rw [hshort] at hshortRun
  rw [hwhole] at hwholeRun
  exact ⟨⟨hshortRun, hsecond⟩, hwholeRun, hthird⟩

theorem circling_succ (b : Serial) (n : Nat) : circling b (n + 1) = circling b n ++ lap := by
  rw [circling, List.replicate_succ', List.flatten_append]
  rfl

theorem revolved_circling (hb : b < 32767) : ∀ n : Nat,
    Revolved b n (({} : Reception).recordAll (circling b n)) ∧
      ∃ s < 32767, StandsAt s (({} : Reception).recordAll (circling b n))
  | 0 => ⟨revolved_first 60000 5000 (sight b), b, hb, rfl, rfl, rfl, rfl⟩
  | n + 1 => by
    obtain ⟨hrevolved, s, hs, hstands⟩ := revolved_circling hb n
    rw [circling_succ, recordAll_append]
    obtain ⟨-, hlap, hzero⟩ := hrevolved.lap hstands hs
    exact ⟨hlap, 0, by decide, hzero⟩

/-- After 65536 times round the circle, which takes 196608 packets, the highest position and what is expected are back
where they were at first; when the first number was not 0 but 2, what is expected has underflowed. -/
theorem totals_fall :
    let before := ({} : Reception).recordAll (circling 0 65535 ++ lap.take 2)
    let after := ({} : Reception).recordAll (circling 0 65535 ++ lap)
    (before.extendedHighest.toNat = 4294967294 ∧ after.extendedHighest.toNat = 0) ∧
      (before.expected.toNat = 4294967295 ∧ after.expected.toNat = 1) ∧
      (({} : Reception).recordAll (circling 2 65535 ++ lap)).Underflows := by
  obtain ⟨hrevolved, s, hs, hstands⟩ := revolved_circling (b := 0) (by decide) 65535
  obtain ⟨⟨hbefore, hlast⟩, hafter, hzero⟩ := hrevolved.lap hstands hs
  obtain ⟨hrevolved', s', hs', hstands'⟩ := revolved_circling (b := 2) (by decide) 65535
  obtain ⟨-, hafter', hzero'⟩ := hrevolved'.lap hstands' hs'
  simp only [recordAll_append]
  have hword := hbefore.toNat_extendedHighest
  have hword' := hafter.toNat_extendedHighest
  rw [hlast.highest] at hword
  rw [hzero.highest] at hword'
  refine ⟨⟨hword, hword'⟩, ⟨?_, ?_⟩, hafter'.underflows_iff.2 ⟨by decide, by decide, ?_⟩⟩
  · rw [hbefore.toNat_expected fun h => absurd (hbefore.underflows_iff.1 h).2.1 (by decide), hword]
    rfl
  · rw [hafter.toNat_expected fun h => absurd (hafter.underflows_iff.1 h).2.2 (by rw [hzero.highest]; decide), hword']
    rfl
  · rw [hzero'.highest]
    decide

end Reception
end VideoTransport
