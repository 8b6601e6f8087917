import VideoTransport.Serial
/-!
# Position — the number circle unrolled

A stream hands out numbers one after another, so a packet has a position in it besides its number, which is the
position modulo 2^16 counted from the first number.  Two positions less than 2^16 apart are told apart by their
numbers, and of two positions less than 2^15 apart the numbers tell which is ahead.
-/
namespace VideoTransport
namespace Serial

/-- The number at position `i` of a stream whose first number is `start`. -/
def nth (start : Serial) (i : Nat) : Serial := start + UInt16.ofNat i

/-- The first position from `c` on that has the number `s`. -/
def locate (start : Serial) (c : Nat) (s : Serial) : Nat := c + (distance (nth start c) s).toNat

theorem toNat_nth (start : Serial) (i : Nat) : (nth start i).toNat = (start.toNat + i) % 65536 := by
  simp only [nth, UInt16.toNat_add, UInt16.toNat_ofNat']
  omega

@[simp] theorem nth_zero (start : Serial) : nth start 0 = start := UInt16.add_zero start

theorem nth_nth (start : Serial) (i j : Nat) : nth (nth start i) j = nth start (i + j) := by
  apply UInt16.toNat_inj.mp
  simp only [toNat_nth]
  omega

theorem nth_add_one (start : Serial) (i : Nat) : nth start i + 1 = nth start (i + 1) := by
  apply UInt16.toNat_inj.mp
  rw [UInt16.toNat_add, toNat_nth, toNat_nth, UInt16.toNat_one]
  omega

/-! ## Telling positions apart -/

theorem nth_inj (start : Serial) {i j : Nat} (hi : i < j + 65536) (hj : j < i + 65536) :
    nth start i = nth start j ↔ i = j := by
  rw [← UInt16.toNat_inj, toNat_nth, toNat_nth]
  omega

/-- **A gap of fewer than 2^16 missing numbers never looks like none.** -/
theorem nth_follows_iff (start : Serial) {l i : Nat} (hl : l < i) (hi : i ≤ l + 65536) :
    nth start i = nth start l + 1 ↔ i = l + 1 := by
  rw [nth_add_one, nth_inj start (by omega) (by omega)]

theorem toNat_distance_nth (start : Serial) {c i : Nat} (h : c ≤ i) :
    (distance (nth start c) (nth start i)).toNat = (i - c) % 65536 := by
  rw [distance, UInt16.toNat_sub, toNat_nth, toNat_nth]
  omega

theorem locate_nth (start : Serial) {c i : Nat} (h : c ≤ i) (hi : i < c + 65536) :
    locate start c (nth start i) = i := by
  rw [locate, toNat_distance_nth start h]
  omega

/-! ## Ahead and behind -/

theorem toNat_half : half.toNat = 32768 := rfl

theorem atOrAhead_nth (start : Serial) {c i : Nat} (h : c ≤ i) (hi : i < c + 32768) :
    atOrAhead (nth start c) (nth start i) = true := by
  rw [atOrAhead, decide_eq_true_eq, UInt16.lt_iff_toNat_lt, toNat_distance_nth start h, toNat_half]
  omega

theorem behind_nth (start : Serial) {c i : Nat} (h : i < c) (hi : c < i + 32768) :
    atOrAhead (nth start c) (nth start i) = false := by
  rw [atOrAhead, decide_eq_false_iff_not, UInt16.lt_iff_toNat_lt, distance, UInt16.toNat_sub, toNat_nth, toNat_nth,
    toNat_half]
  omega

theorem distance_nth_lt_iff (start : Serial) {c i j : Nat} (hi : c ≤ i) (hi' : i < c + 65536) (hj : c ≤ j)
    (hj' : j < c + 65536) :
    distance (nth start c) (nth start i) < distance (nth start c) (nth start j) ↔ i < j := by
  rw [UInt16.lt_iff_toNat_lt, toNat_distance_nth start hi, toNat_distance_nth start hj]
  omega

end Serial
end VideoTransport
