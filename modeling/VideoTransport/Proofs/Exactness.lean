import Mathlib
import VideoTransport.Decimal.Binary
/-!
# Exactness — doubles that need no rounding

A double has room for a mantissa of fifty-three bits.  As long as whole numbers stay below that, converting them,
multiplying them and dividing them by a power of two gives the exact result (`Holds.mul`, `Holds.shift`), and that is
what the bits of the double read as (`Holds.value`).
-/
namespace VideoTransport
namespace Decimal

open Float.Model (Format totalExponent)
open Float.Model.UnpackedFloat

/-- The number that a double denotes, if it is finite. -/
def Reading.value? : Reading → Option ℚ
  | .finite negative b => some ((if negative then -1 else 1) * (b.mant * 2 ^ b.exp))
  | _ => none

/-! ## Rounding a number that has room -/

theorem shiftRight_exact : ∀ (k m : Nat),
    Nat.repeat ExtendedMantissa.shiftRightOne k ⟨m * 2 ^ k, false, false⟩ = ⟨m, false, false⟩
  | 0, m => by simp [Nat.repeat]
  | k + 1, m => by
    have h : m * 2 ^ (k + 1) = m * 2 * 2 ^ k := by ring
    rw [Nat.repeat, h, shiftRight_exact k (m * 2)]
    simp [ExtendedMantissa.shiftRightOne]

theorem log2_mul_two_pow {m : Nat} (hm : m ≠ 0) : ∀ k : Nat, (m * 2 ^ k).log2 = m.log2 + k
  | 0 => by simp
  | k + 1 => by
    have h : m * 2 ^ (k + 1) = 2 * (m * 2 ^ k) := by ring
    rw [h, Nat.log2_two_mul (Nat.mul_ne_zero hm (Nat.two_pow_pos k).ne'), log2_mul_two_pow hm k, Nat.add_assoc]

theorem shiftToTargetExponent_exact {m k : Nat} {e : Int} (hm : m.log2 = 52) (he : -1074 ≤ e + k) :
    shiftToTargetExponent Format.binary64 (m * 2 ^ k) e .exact = (⟨m, false, false⟩, e + k) := by
  have hne : m ≠ 0 := by rintro rfl; simp at hm
  have htarget : Format.binary64.targetExponent (totalExponent (m * 2 ^ k) e) = e + k := by
    simp only [Format.targetExponent, totalExponent, Format.mantissaBits, Format.minExponent, log2_mul_two_pow hne, hm]
    omega
  have hshift : (e + k - e).toNat = k := by omega
  rw [shiftToTargetExponent, htarget, shiftToExponent, hshift]
  exact congrArg (·, e + (k : Int)) (shiftRight_exact k m)

/-- A mantissa of fifty-three bits, however far shifted, is rounded to itself. -/
theorem roundWithAccuracy_exact {m k : Nat} {e : Int} (s : Sign) (hm : m.log2 = 52) (he : -1074 ≤ e + k)
    (hpos : 0 < m) :
    roundWithAccuracy Format.binary64 s (m * 2 ^ k) e .exact = .finite s m (e + k) hpos := by
  have hagain := shiftToTargetExponent_exact (k := 0) hm (e := e + k) (by simpa using he)
  rw [Nat.pow_zero, Nat.mul_one, Int.natCast_zero, Int.add_zero] at hagain
  rw [roundWithAccuracy, shiftToTargetExponent_exact hm he]
  simp only [ExtendedMantissa.roundedMantissa, ExtendedMantissa.accuracy, Accuracy.roundToNearestEven, hagain,
    dif_neg hpos.ne']

/-! ## Bits -/

theorem two_pow_le_of_log2 {m : Nat} (hm : m.log2 = 52) : 2 ^ 52 ≤ m ∧ m < 2 ^ 53 :=
  (Nat.log2_eq_iff (by rintro rfl; simp at hm)).1 hm

theorem pack_normal {m : Nat} {e : Int} (s : Sign) (hpos : 0 < m) (hm : m.log2 = 52) (hlow : -1074 ≤ e)
    (hhigh : e ≤ 971) :
    pack Format.binary64 (.finite s m e hpos) =
      packComponents Format.binary64 s (BitVec.ofNat 11 (e + 1075).toNat) (BitVec.ofNat 52 m) := by
  have hbiased :
      (e + (Format.binary64.exponentBias : Nat) + (Format.binary64.mantissaBitsWithoutImplicit : Nat)).toNat =
        (e + 1075).toNat := by
    show (e + 1023 + 52).toNat = _
    omega
  have hfinite : ¬2 ^ Format.binary64.exponentBits ≤ (e + 1075).toNat + 1 := by
    show ¬2048 ≤ (e + 1075).toNat + 1
    omega
  simp only [pack, hbiased, if_neg hfinite, hm]
  exact if_pos rfl

theorem unpack_pack {m : Nat} {e : Int} (s : Sign) (hpos : 0 < m) (hm : m.log2 = 52) (hlow : -1074 ≤ e)
    (hhigh : e ≤ 971) :
    (Float.Model.pack (.finite s m e hpos)).unpack = .finite s m e hpos := by
  obtain ⟨hle, hlt⟩ := two_pow_le_of_log2 hm
  have hexponent : (BitVec.ofNat 11 (e + 1075).toNat).toNat = (e + 1075).toNat := by
    rw [BitVec.toNat_ofNat]
    omega
  have hnotTop : BitVec.ofNat 11 (e + 1075).toNat ≠ -1#11 := by
    intro h
    rw [← BitVec.toNat_inj, hexponent] at h
    have : (-1#11).toNat = 2047 := rfl
    omega
  have hnotZero : BitVec.ofNat 11 (e + 1075).toNat ≠ 0#11 := by
    intro h
    rw [← BitVec.toNat_inj, hexponent] at h
    have : (0#11).toNat = 0 := rfl
    omega
  unfold Float.Model.unpack Float.Model.pack
  simp only [pack_normal s hpos hm hlow hhigh, unpack, unpackExponent_packComponents, unpackMantissa_packComponents,
    unpackSign_packComponents, Sign.ofBitVec_toBitVec, if_neg hnotTop, if_neg hnotZero]
  have hmantissa : (1#1 ++ BitVec.ofNat 52 m).toNat = m := by
    rw [BitVec.toNat_append, ← Nat.shiftLeft_add_eq_or_of_lt (BitVec.isLt _), BitVec.toNat_ofNat, Nat.shiftLeft_eq]
    show 1 * 2 ^ 52 + m % 2 ^ 52 = m
    omega
  have hexp : ((BitVec.ofNat 11 (e + 1075).toNat).toNat : Int) - (1023 + 52) = e := by
    rw [hexponent]
    omega
  congr 1

theorem toNat_pack {m : Nat} {e : Int} (hpos : 0 < m) (hm : m.log2 = 52) (hlow : -1074 ≤ e) (hhigh : e ≤ 971) :
    (Float.Model.pack (.finite .positive m e hpos)).toBits.toNat = (e + 1075).toNat * 2 ^ 52 + (m - 2 ^ 52) := by
  obtain ⟨hle, hlt⟩ := two_pow_le_of_log2 hm
  unfold Float.Model.pack
  simp only [pack_normal .positive hpos hm hlow hhigh, packComponents]
  show (Sign.positive.toBitVec ++ BitVec.ofNat 11 (e + 1075).toNat ++ BitVec.ofNat 52 m).toNat = _
  rw [BitVec.toNat_append, BitVec.toNat_append, ← Nat.shiftLeft_add_eq_or_of_lt (BitVec.isLt _),
    ← Nat.shiftLeft_add_eq_or_of_lt (BitVec.isLt _), Nat.shiftLeft_eq, Nat.shiftLeft_eq, BitVec.toNat_ofNat,
    BitVec.toNat_ofNat]
  show (0 * 2 ^ 11 + (e + 1075).toNat % 2 ^ 11) * 2 ^ 52 + m % 2 ^ 52 = _
  omega

/-! ## Exact arithmetic -/

/-- Whether a double is exactly `n · 2^e`, where `n` is not zero. -/
def Holds (x : Float) (n : Nat) (e : Int) : Prop :=
  ∃ (k : Nat) (hpos : 0 < n * 2 ^ k), (n * 2 ^ k).log2 = 52 ∧ -1074 ≤ e - k ∧ e - k ≤ 971 ∧
    x.toModel = Float.Model.pack (.finite .positive (n * 2 ^ k) (e - k) hpos)

variable {x y : Float} {n m : Nat} {e f : Int}

theorem Holds.pos (h : Holds x n e) : 0 < n := by
  obtain ⟨k, hpos, -⟩ := h
  exact Nat.pos_of_mul_pos_right hpos

theorem holds_ofUInt32 {w : UInt32} (hw : w ≠ 0) : Holds w.toFloat w.toNat 0 := by
  have hne : w.toNat ≠ 0 := fun h => hw (UInt32.toNat_inj.1 h)
  have hlog : w.toNat.log2 < 32 := (Nat.log2_lt hne).2 w.toNat_lt
  have hmantissa : (w.toNat * 2 ^ (52 - w.toNat.log2)).log2 = 52 := by
    rw [log2_mul_two_pow hne]
    omega
  have hpos : 0 < w.toNat * 2 ^ (52 - w.toNat.log2) :=
    Nat.mul_pos (Nat.pos_of_ne_zero hne) (Nat.two_pow_pos _)
  have htarget : Format.binary64.targetExponent (totalExponent w.toNat 0) = (w.toNat.log2 : Int) - 52 := by
    simp only [Format.targetExponent, totalExponent, Format.mantissaBits, Format.minExponent]
    omega
  have hshift : (0 - ((w.toNat.log2 : Int) - 52)).toNat = 52 - w.toNat.log2 := by omega
  have hround : Float.Model.UnpackedFloat.round Format.binary64 .positive w.toNat 0 =
      .finite .positive (w.toNat * 2 ^ (52 - w.toNat.log2)) (0 - (52 - w.toNat.log2 : Nat)) hpos := by
    have hexact := roundWithAccuracy_exact (k := 0) (e := 0 - (52 - w.toNat.log2 : Nat)) .positive hmantissa
      (by omega) hpos
    rw [Float.Model.UnpackedFloat.round, htarget, decreaseExponent, hshift, Nat.shiftLeft_eq]
    simpa using hexact
  refine ⟨52 - w.toNat.log2, hpos, hmantissa, by omega, by omega, ?_⟩
  rw [← hround]
  show Float.Model.pack (ofInt Format.binary64 w.toNat) = _
  rw [ofInt, Float.Model.UnpackedFloat.normalize, Int.compare_eq_gt.2 (by omega)]
  rfl

/-- **Products** that stay below 2^53 are exact. -/
theorem Holds.mul (hx : Holds x n e) (hy : Holds y m f) (hroom : n * m < 2 ^ 53) (hlow : -1022 ≤ e + f)
    (hhigh : e + f ≤ 971) : Holds (x * y) (n * m) (e + f) := by
  have hne : n * m ≠ 0 := Nat.mul_ne_zero hx.pos.ne' hy.pos.ne'
  have hlog : (n * m).log2 < 53 := (Nat.log2_lt hne).2 hroom
  obtain ⟨i, hposx, hlogx, hlowx, hhighx, hmodelx⟩ := hx
  obtain ⟨j, hposy, hlogy, hlowy, hhighy, hmodely⟩ := hy
  have hproduct : n * 2 ^ i * (m * 2 ^ j) = n * m * 2 ^ (i + j) := by ring
  -- The product of the mantissas has at least 105 bits, so there are zeros enough to shift out.
  have hlarge : 52 ≤ (n * m).log2 + (i + j) := by
    rw [← log2_mul_two_pow hne, ← hproduct, Nat.le_log2 (Nat.mul_pos hposx hposy).ne']
    exact Nat.le_trans (two_pow_le_of_log2 hlogx).1 (Nat.le_mul_of_pos_right _ hposy)
  have hmantissa : (n * m * 2 ^ (52 - (n * m).log2)).log2 = 52 := by
    rw [log2_mul_two_pow hne]
    omega
  have hpos : 0 < n * m * 2 ^ (52 - (n * m).log2) := Nat.mul_pos (Nat.pos_of_ne_zero hne) (Nat.two_pow_pos _)
  have hshift : n * 2 ^ i * (m * 2 ^ j) =
      n * m * 2 ^ (52 - (n * m).log2) * 2 ^ (i + j - (52 - (n * m).log2)) := by
    rw [hproduct, Nat.mul_assoc (n * m), ← Nat.pow_add]
    congr 2
    omega
  refine ⟨52 - (n * m).log2, hpos, hmantissa, by omega, by omega, ?_⟩
  show Float.Model.pack (Float.Model.UnpackedFloat.mul Format.binary64 x.toModel.unpack y.toModel.unpack) = _
  rw [hmodelx, hmodely, unpack_pack _ hposx hlogx hlowx hhighx, unpack_pack _ hposy hlogy hlowy hhighy]
  show Float.Model.pack (roundWithAccuracy Format.binary64 .positive (n * 2 ^ i * (m * 2 ^ j)) (e - i + (f - j))
    .exact) = _
  rw [hshift, roundWithAccuracy_exact .positive hmantissa (by omega) hpos]
  congr 2
  omega

/-- **Quotients** by a power of two are exact. -/
theorem Holds.shift (hx : Holds x n e) (hy : Holds y 1 f) (hlow : -1021 ≤ e - f) (hhigh : e - f ≤ 971) :
    Holds (x / y) n (e - f) := by
  have hne := hx.pos.ne'
  obtain ⟨i, hposx, hlogx, hlowx, hhighx, hmodelx⟩ := hx
  obtain ⟨j, hposy, hlogy, hlowy, hhighy, hmodely⟩ := hy
  obtain rfl : j = 52 := by
    rw [Nat.one_mul, Nat.log2_two_pow] at hlogy
    exact hlogy
  have hi : i ≤ 52 := by
    rw [log2_mul_two_pow hne] at hlogx
    omega
  have htarget : min (e - i - (f - (52 : Nat))) (Format.binary64.targetExponent
      (totalExponent (n * 2 ^ i) (e - i) - totalExponent (1 * 2 ^ 52) (f - (52 : Nat)))) = e - f - i - 1 := by
    simp only [Format.targetExponent, totalExponent, Format.mantissaBits, Format.minExponent, hlogx, hlogy]
    omega
  have hshift : (e - i - (f - (52 : Nat)) - (e - f - i - 1)).toNat = 53 := by omega
  -- The dividend is brought to 53 bits more than the divisor, whose mantissa is 2^52, so one zero is left over.
  have hcore : divCore Format.binary64 (n * 2 ^ i) (e - i) (1 * 2 ^ 52) (f - (52 : Nat)) =
      (n * 2 ^ i * 2 ^ 1, e - f - i - 1, .exact) := by
    have hsplit : (n * 2 ^ i) <<< 53 = n * 2 ^ i * 2 ^ 1 * (1 * 2 ^ 52) := by
      rw [Nat.shiftLeft_eq]
      ring
    rw [divCore, htarget, hshift, hsplit, Nat.mul_div_cancel _ (by decide), Nat.mul_mod_left]
    rfl
  refine ⟨i, hposx, hlogx, by omega, by omega, ?_⟩
  show Float.Model.pack (div Format.binary64 x.toModel.unpack y.toModel.unpack) = _
  rw [hmodelx, hmodely, unpack_pack _ hposx hlogx hlowx hhighx, unpack_pack _ hposy hlogy hlowy hhighy]
  rw [div, hcore]
  show Float.Model.pack (roundWithAccuracy Format.binary64 .positive (n * 2 ^ i * 2 ^ 1) (e - f - i - 1) .exact) = _
  rw [roundWithAccuracy_exact .positive hlogx (by omega) hposx]
  congr 2
  omega

/-- **The bits** of a double that is `n · 2^e` read as that number. -/
theorem Holds.value (hx : Holds x n e) : (Reading.ofBits x.toBits).value? = some ((n : ℚ) * 2 ^ e) := by
  obtain ⟨k, hpos, hlog, hlow, hhigh, hmodel⟩ := hx
  obtain ⟨hle, hlt⟩ := two_pow_le_of_log2 hlog
  have hbits : x.toBits.toNat = (e - k + 1075).toNat * 2 ^ 52 + (n * 2 ^ k - 2 ^ 52) := by
    rw [← toNat_pack hpos hlog hlow hhigh, ← hmodel]
    rfl
  have hbiased : x.toBits.toNat / fractionCount % 2048 = (e - k + 1075).toNat := by
    show x.toBits.toNat / 4503599627370496 % 2048 = _
    omega
  have hfraction : x.toBits.toNat % fractionCount = n * 2 ^ k - 2 ^ 52 := by
    show x.toBits.toNat % 4503599627370496 = _
    omega
  have hsign : (x.toBits >>> 63 == 1) = false := by
    rw [beq_eq_false_iff_ne, ne_eq, ← UInt64.toNat_inj, UInt64.toNat_shiftRight, Nat.shiftRight_eq_div_pow]
    show ¬x.toBits.toNat / 2 ^ 63 = 1
    omega
  have hnan : (e - k + 1075).toNat ≠ 2047 := by omega
  have hzero : (e - k + 1075).toNat ≠ 0 := by omega
  have hmantissa : fractionCount + (n * 2 ^ k - 2 ^ 52) = n * 2 ^ k := by
    show 4503599627370496 + (n * 2 ^ k - 2 ^ 52) = _
    omega
  have hexponent : ((e - k + 1075).toNat : Int) - 1075 = e - k := by omega
  have hpower : (2 : ℚ) ^ k * 2 ^ (e - k) = 2 ^ e := by
    rw [← zpow_natCast, ← zpow_add₀ two_ne_zero, add_sub_cancel]
  rw [Reading.ofBits]
  simp only [hbiased, hfraction, hsign, if_neg hnan, if_neg hzero, Reading.value?, hmantissa, hexponent]
  rw [if_neg Bool.false_ne_true, one_mul, Nat.cast_mul, Nat.cast_pow, Nat.cast_ofNat, mul_assoc, hpower]

end Decimal
end VideoTransport
