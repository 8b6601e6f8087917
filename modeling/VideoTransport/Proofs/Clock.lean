import Mathlib.Algebra.Order.Floor.Semifield
import Mathlib.Data.Rat.Floor
import VideoTransport.Rtcp.Time
/-!
# Clock — what is cut off from times and delays

A clock cuts a time off to ticks of 2^-32 s, and its compact time is cut off once more, to units of 1/65536 s.  A delay
is cut off once, from nanoseconds to these units.  The two agree for every nanosecond, and ticks are short enough to tell
any two nanoseconds of one era apart (`WallTime.keeps_time`).  Before 1970 the clock stands
(`WallTime.stands_before_epoch`).
-/
namespace VideoTransport
namespace Rtcp

/-! ## Ticks and units -/

/-- The time in units of 2^-32 s, modulo 2^64. -/
def WallTime.ticks (t : WallTime) : UInt64 := UInt64.ofNat (t.seconds.toNat * 2 ^ 32 + t.fraction.toNat)

/-- The compact time is the middle of the ticks. -/
theorem toNat_compact (t : WallTime) : t.compact.toNat = t.ticks.toNat / 2 ^ 16 % 2 ^ 32 := by
  have hseconds := t.seconds.toNat_lt
  have hfraction := t.fraction.toNat_lt
  rw [WallTime.compact, WallTime.ticks, UInt32.toNat_ofNat', UInt64.toNat_ofNat']
  omega

/-- What has elapsed in compact times is cut off at both ends. -/
theorem toNat_compact_sub {a b : WallTime} (h : (b.ticks - a.ticks).toNat ≤ 2 ^ 48 - 2 ^ 16) :
    (b.ticks - a.ticks).toNat < ((b.compact - a.compact).toNat + 1) * 2 ^ 16 ∧
      (b.compact - a.compact).toNat * 2 ^ 16 < (b.ticks - a.ticks).toNat + 2 ^ 16 ∧
      (b.ticks - a.ticks).toNat / 2 ^ 16 ≤ (b.compact - a.compact).toNat := by
  have ha := a.ticks.toNat_lt
  have hb := b.ticks.toNat_lt
  rw [UInt64.toNat_sub] at h ⊢
  rw [UInt32.toNat_sub, toNat_compact, toNat_compact]
  omega

theorem toNat_compactDelay {hold : Nat} (h : hold * 65536 / nanosPerSecond < 2 ^ 32) :
    (compactDelay hold).toNat = hold * 65536 / nanosPerSecond := by
  have hmin : min (hold * 65536 / nanosPerSecond) (UInt32.size - 1) = hold * 65536 / nanosPerSecond :=
    Nat.min_eq_left (Nat.le_sub_one_of_lt h)
  rw [compactDelay, UInt32.toNat_ofNat', hmin, Nat.mod_eq_of_lt h]

/-- The whole units of 1/65536 s in so many nanoseconds. -/
theorem floor_units (nanos : Nat) : ⌊(nanos / 10 ^ 9 : ℚ) * 65536⌋₊ = nanos * 65536 / nanosPerSecond := by
  rw [← Nat.floor_div_eq_div (K := ℚ), div_mul_eq_mul_div, nanosPerSecond]
  norm_num

namespace WallTime

/-! ## What a clock cuts off -/

/-- The whole ticks from the start of 1900 to so many nanoseconds after the start of 1970. -/
def elapsedTicks (nanos : Nat) : Nat := epochOffset * 2 ^ 32 + nanos * 2 ^ 32 / nanosPerSecond

/-- **A clock shows the ticks that have passed**, modulo 2^64. -/
theorem toNat_ticks_ofUnixNanos (nanos : Int) :
    (ofUnixNanos nanos).ticks.toNat = elapsedTicks nanos.toNat % 2 ^ 64 := by
  generalize hn : nanos.toNat = n
  have hseconds : (ofUnixNanos nanos).seconds.toNat = (n / nanosPerSecond + epochOffset) % 2 ^ 32 := by
    rw [← hn]
    exact UInt32.toNat_ofNat'
  have hrest : n % nanosPerSecond * 2 ^ 32 / nanosPerSecond < 2 ^ 32 := by
    rw [nanosPerSecond]
    omega
  have hfraction : (ofUnixNanos nanos).fraction.toNat = n % nanosPerSecond * 2 ^ 32 / nanosPerSecond := by
    rw [← hn] at hrest ⊢
    exact UInt32.toNat_ofNat_of_lt' hrest
  have hwhole : n * 2 ^ 32 / nanosPerSecond =
      n / nanosPerSecond * 2 ^ 32 + n % nanosPerSecond * 2 ^ 32 / nanosPerSecond := by
    rw [nanosPerSecond]
    omega
  rw [ticks, UInt64.toNat_ofNat', hseconds, hfraction, elapsedTicks, hwhole]
  omega

/-- The two cuts of a compact time, to ticks and from there to units, come to one. -/
theorem compact_ofUnixNanos (nanos : Nat) :
    (ofUnixNanos nanos).compact = UInt32.ofNat (epochOffset * 65536 + nanos * 65536 / nanosPerSecond) := by
  have hcut : nanos * 2 ^ 32 / nanosPerSecond / 2 ^ 16 = nanos * 65536 / nanosPerSecond := by
    have hticks : nanos * 2 ^ 32 = nanos * 65536 * 2 ^ 16 := by omega
    calc nanos * 2 ^ 32 / nanosPerSecond / 2 ^ 16
        = nanos * 65536 * 2 ^ 16 / (nanosPerSecond * 2 ^ 16) := by rw [Nat.div_div_eq_div_mul, hticks]
      _ = nanos * 65536 / nanosPerSecond := Nat.mul_div_mul_right _ _ (by decide)
  apply UInt32.toNat_inj.mp
  rw [toNat_compact, toNat_ticks_ofUnixNanos, Int.toNat_natCast, elapsedTicks, UInt32.toNat_ofNat', ← hcut]
  omega

/-- As long as delays are not cut off at the greatest word, they run with the clock. -/
theorem compact_eq_add_compactDelay {nanos : Nat} (h : nanos < 65536 * nanosPerSecond) :
    (ofUnixNanos nanos).compact = UInt32.ofNat (epochOffset * 65536) + compactDelay nanos := by
  have hfits : nanos * 65536 / nanosPerSecond < 2 ^ 32 := by
    rw [nanosPerSecond] at h ⊢
    omega
  have hdelay : compactDelay nanos = UInt32.ofNat (nanos * 65536 / nanosPerSecond) := by
    apply UInt32.toNat_inj.mp
    rw [toNat_compactDelay hfits, UInt32.toNat_ofNat_of_lt' hfits]
  rw [compact_ofUnixNanos, hdelay, UInt32.ofNat_add]

/-! ## Eras -/

/-- The era of the time so many nanoseconds after the start of 1970: how often 2^32 s have passed since the start of
1900. -/
def era (nanos : Int) : Int := (epochOffset + nanos / nanosPerSecond) / 2 ^ 32

theorem era_mono {a b : Int} (h : a ≤ b) : era a ≤ era b := by
  unfold era nanosPerSecond
  omega

/-- An era is a turn of the ticks. -/
theorem era_natCast (nanos : Nat) : era nanos = (elapsedTicks nanos / 2 ^ 64 : Nat) := by
  unfold era elapsedTicks nanosPerSecond
  omega

theorem ofUnixNanos_toNat (nanos : Int) : ofUnixNanos nanos.toNat = ofUnixNanos nanos := rfl

/-- A nanosecond takes more than four ticks. -/
theorem ticks_lt_ticks {a b : Nat} (h : a < b) (hera : era a = era b) :
    (ofUnixNanos a).ticks < (ofUnixNanos b).ticks := by
  have hmore : elapsedTicks a < elapsedTicks b := by
    unfold elapsedTicks nanosPerSecond
    omega
  have hturn : elapsedTicks a / 2 ^ 64 = elapsedTicks b / 2 ^ 64 := by
    rw [era_natCast, era_natCast] at hera
    exact_mod_cast hera
  rw [UInt64.lt_iff_toNat_lt, toNat_ticks_ofUnixNanos, toNat_ticks_ofUnixNanos, Int.toNat_natCast, Int.toNat_natCast]
  omega

/-- Within an era a clock goes forward, from 1970 on. -/
theorem ticks_lt_ticks_iff {a b : Int} (h : a < b) (hera : era a = era b) :
    (ofUnixNanos a).ticks < (ofUnixNanos b).ticks ↔ 0 < b := by
  constructor
  · intro hlt
    by_contra hb
    have hstands : a.toNat = b.toNat := by omega
    rw [← ofUnixNanos_toNat a, ← ofUnixNanos_toNat b, hstands] at hlt
    exact UInt64.lt_irrefl _ hlt
  · intro hb
    rw [← ofUnixNanos_toNat a, ← ofUnixNanos_toNat b]
    -- The start of 1970 may lie between the two; it is in their era then.
    refine ticks_lt_ticks (by omega) (le_antisymm (era_mono (by omega)) ?_)
    calc era b.toNat = era a := by rw [hera, Int.toNat_of_nonneg hb.le]
      _ ≤ era a.toNat := era_mono (Int.self_le_toNat a)

/-- **Clocks keep time.**  From 1970 on, the compact time is the time since 1900 in units of 1/65536 s, modulo 2^32, and
what is left of a unit is cut off.  Through the first 65536 s it is the delay since the start of 1970, added to the
compact time of that start.  Of two times in one era the clock shows more ticks at the later one exactly if that is after
the start of 1970. -/
theorem keeps_time :
    (∀ nanos : Nat, (ofUnixNanos nanos).compact =
      UInt32.ofNat (2208988800 * 65536 + ⌊(nanos / 10 ^ 9 : ℚ) * 65536⌋₊)) ∧
    (∀ nanos : Nat, (nanos / 10 ^ 9 : ℚ) < 65536 →
      (ofUnixNanos nanos).compact = UInt32.ofNat (2208988800 * 65536) + compactDelay nanos) ∧
    ∀ a b : Int, a < b → era a = era b → ((ofUnixNanos a).ticks < (ofUnixNanos b).ticks ↔ 0 < b) := by
  refine ⟨fun nanos => ?_, fun nanos h => compact_eq_add_compactDelay ?_, fun a b => ticks_lt_ticks_iff⟩
  · rw [floor_units]
    exact compact_ofUnixNanos nanos
  · rw [div_lt_iff₀ (by norm_num)] at h
    rw [nanosPerSecond]
    exact_mod_cast h

/-- The last nanosecond before 65536 s have passed, and the last one of the era of 1900. -/
theorem keeps_time_to_the_last :
    let nanos : Nat := 65535999999999
    let a : Int := 2085978495999999998
    let b : Int := 2085978495999999999
    (nanos / 10 ^ 9 : ℚ) < 65536 ∧ a < b ∧ era a = era b ∧
      (ofUnixNanos nanos).compact = UInt32.ofNat (2208988800 * 65536) + compactDelay nanos ∧
      (ofUnixNanos a).ticks < (ofUnixNanos b).ticks := by
  intro nanos a b
  have hnanos : (nanos / 10 ^ 9 : ℚ) < 65536 := by norm_num [nanos]
  have hlt : a < b := by decide
  have hera : era a = era b := by decide
  obtain ⟨-, hdelay, hforward⟩ := keeps_time
  exact ⟨hnanos, hlt, hera, hdelay nanos hnanos, (hforward a b hlt hera).2 (by decide)⟩

/-- The clock does not go forward in the last second of 1969. -/
theorem stands_before_epoch :
    let a : Int := -1000000000
    a < 0 ∧ era a = era 0 ∧ ofUnixNanos a = ofUnixNanos 0 ∧ ¬(ofUnixNanos a).ticks < (ofUnixNanos 0).ticks := by
  decide

end WallTime
end Rtcp
end VideoTransport
