import Mathlib.Data.List.TakeDrop
import VideoTransport.Rtp
/-!
# Offsets — reading stays inside the datagram

A datagram can be read by offsets, with checks of its own before every access (`Rtp.Packet.scan`).  An access that those
checks do not cover has no result at all (`Access`).  There is none: reading by offsets always has a result, and it is
that of reading off the front (`Rtp.Packet.scan_eq`).
-/
namespace VideoTransport

/-! ## Accesses -/

/-- A computation that may refuse its input, and that has no result when it reaches outside of it. -/
abbrev Access (α : Type) : Type := ExceptT Malformation Option α

namespace Access

/-- The octet at an index, which must be there. -/
def octet (d : Bytes) (i : Nat) : Access UInt8 := ExceptT.mk (d[i]?.map .ok)

/-- The word of four octets at an offset, which must be there. -/
def word (d : Bytes) (i : Nat) : Access UInt32 := do
  return Bytes.word32 (← octet d i) (← octet d (i + 1)) (← octet d (i + 2)) (← octet d (i + 3))

/-- The octets from one offset up to another, which must be there. -/
def stretch (d : Bytes) (start stop : Nat) : Access Bytes :=
  ExceptT.mk (if start ≤ stop ∧ stop ≤ d.length then some (.ok ((d.take stop).drop start)) else none)

/-- A difference that must not be negative. -/
def less (a b : Nat) : Access Nat := ExceptT.mk (if b ≤ a then some (.ok (a - b)) else none)

/-- Go on at an offset, unless the datagram ends before it. -/
def reach (d : Bytes) (offset : Nat) : Access Nat :=
  if d.length < offset then throw .truncated else pure offset

theorem octet_of_some {d : Bytes} {i : Nat} {b : UInt8} (h : d[i]? = some b) : octet d i = pure b := by
  rw [octet, h]
  rfl

theorem stretch_of_le {d : Bytes} {start stop : Nat} (hstart : start ≤ stop) (hstop : stop ≤ d.length) :
    stretch d start stop = pure ((d.take stop).drop start) := by
  rw [stretch, if_pos ⟨hstart, hstop⟩]
  rfl

theorem less_of_le {a b : Nat} (h : b ≤ a) : less a b = pure (a - b) := by
  rw [less, if_pos h]
  rfl

end Access

namespace Rtp

/-- The header in all but the first of its octets. -/
def Header.ofOctets (b1 s1 s0 t3 t2 t1 t0 c3 c2 c1 c0 : UInt8) : Header where
  marker := b1 &&& 0x80 ≠ 0
  payloadType := b1 &&& 0x7f
  sequence := Bytes.word16 s1 s0
  timestamp := Bytes.word32 t3 t2 t1 t0
  ssrc := Bytes.word32 c3 c2 c1 c0

namespace Packet

open Access

/-! ## Reading off the front -/

/-- What is left behind the header extension, which is there if the first octet says so. -/
def behindExtension (b0 : UInt8) (rest : Bytes) : Except Malformation Bytes :=
  if b0 &&& 0x10 ≠ 0 then skipExtension rest else pure rest

/-- What is left before the padding, which is there if the first octet says so. -/
def beforePadding (b0 : UInt8) (rest : Bytes) : Except Malformation Bytes :=
  if b0 &&& 0x20 ≠ 0 then stripPadding rest else pure rest

theorem parse_of_short {d : Bytes} (h : d.length < headerLength) : parse d = .error .truncated := by
  unfold parse
  split
  · simp only [headerLength, List.length_cons] at h
    omega
  · rfl

theorem exists_octets {d : Bytes} (h : headerLength ≤ d.length) : ∃ b0 b1 s1 s0 t3 t2 t1 t0 c3 c2 c1 c0 rest,
    d = b0 :: b1 :: s1 :: s0 :: t3 :: t2 :: t1 :: t0 :: c3 :: c2 :: c1 :: c0 :: rest := by
  match d, h with
  | b0 :: b1 :: s1 :: s0 :: t3 :: t2 :: t1 :: t0 :: c3 :: c2 :: c1 :: c0 :: rest, _ =>
    exact ⟨b0, b1, s1, s0, t3, t2, t1, t0, c3, c2, c1, c0, rest, rfl⟩

/-- **Reading**, part by part. -/
theorem parse_cons (b0 b1 s1 s0 t3 t2 t1 t0 c3 c2 c1 c0 : UInt8) (rest : Bytes) :
    parse (b0 :: b1 :: s1 :: s0 :: t3 :: t2 :: t1 :: t0 :: c3 :: c2 :: c1 :: c0 :: rest) =
      if b0 >>> 6 ≠ 2 then throw .badVersion
      else do
        let rest ← skipWords (b0 &&& 0x0f).toNat rest
        let rest ← behindExtension b0 rest
        let payload ← beforePadding b0 rest
        return ⟨.ofOctets b1 s1 s0 t3 t2 t1 t0 c3 c2 c1 c0, payload⟩ := by
  rw [parse]
  unfold behindExtension beforePadding
  by_cases hx : b0 &&& 0x10 ≠ 0 <;> by_cases hp : b0 &&& 0x20 ≠ 0
  · simp only [if_pos hx, if_pos hp]
    rfl
  · simp only [if_pos hx, if_neg hp]
    rfl
  · simp only [if_neg hx, if_pos hp]
    rfl
  · simp only [if_neg hx, if_neg hp]
    rfl

/-! ## Reading by offsets -/

/-- The offset behind the header extension, which is there if the first octet says so. -/
def scanExtension (b0 : UInt8) (d : Bytes) (offset : Nat) : Access Nat :=
  if b0 &&& 0x10 ≠ 0 then do
    let start ← reach d (offset + 4)
    let high ← octet d (offset + 2)
    let low ← octet d (offset + 3)
    reach d (start + (Bytes.word16 high low).toNat * 4)
  else pure offset

/-- The offset of the padding, which is there if the first octet says so. -/
def scanPadding (b0 : UInt8) (d : Bytes) (offset : Nat) : Access Nat :=
  if b0 &&& 0x20 ≠ 0 then do
    let pad ← octet d (← less d.length 1)
    if pad = 0 || d.length < offset + pad.toNat then throw .badPadding
    else less d.length pad.toNat
  else pure d.length

/-- Read a datagram by offsets. -/
def scan (d : Bytes) : Access Packet :=
  if d.length < headerLength then throw .truncated
  else do
    let b0 ← octet d 0
    if b0 >>> 6 ≠ 2 then throw .badVersion
    else do
      let offset ← reach d (headerLength + (b0 &&& 0x0f).toNat * 4)
      let offset ← scanExtension b0 d offset
      let stop ← scanPadding b0 d offset
      let header := .ofOctets (← octet d 1) (← octet d 2) (← octet d 3) (← octet d 4) (← octet d 5) (← octet d 6)
        (← octet d 7) (← octet d 8) (← octet d 9) (← octet d 10) (← octet d 11)
      return ⟨header, ← stretch d offset stop⟩

/-! ## Both ways agree -/

/-- Looking for an offset ends like taking octets off the front: both are refused, or the offset is in the datagram
and what lies behind it is what is left. -/
def Finds (d : Bytes) (offset : Access Nat) (rest : Except Malformation Bytes) : Prop :=
  (∃ fault, offset = throw fault ∧ rest = throw fault) ∨ ∃ o ≤ d.length, offset = pure o ∧ rest = pure (d.drop o)

variable {d : Bytes} {o : Nat}

theorem reach_finds (h : o ≤ d.length) (words : Nat) :
    Finds d (reach d (o + words * 4)) (skipWords words (d.drop o)) := by
  unfold reach skipWords
  rw [List.length_drop, List.drop_drop]
  by_cases hshort : d.length < o + words * 4
  · rw [if_pos hshort, if_pos (by omega)]
    exact .inl ⟨_, rfl, rfl⟩
  · rw [if_neg hshort, if_neg (by omega), Nat.mul_comm 4]
    exact .inr ⟨_, Nat.le_of_not_lt hshort, rfl, rfl⟩

/-- Four octets at an offset. -/
theorem drop_eq_of_reach (h : o + 4 ≤ d.length) : ∃ p1 p0 high low, d.drop o = p1 :: p0 :: high :: low :: d.drop (o + 4) := by
  have hlength : 4 ≤ (d.drop o).length := by
    rw [List.length_drop]
    omega
  rw [← List.drop_drop]
  match d.drop o, hlength with
  | p1 :: p0 :: high :: low :: rest, _ => exact ⟨p1, p0, high, low, rfl⟩

theorem skipExtension_of_short {rest : Bytes} (h : rest.length < 4) : skipExtension rest = .error .truncated := by
  unfold skipExtension
  split
  · simp only [List.length_cons] at h
    omega
  · rfl

theorem scanExtension_finds (b0 : UInt8) (h : o ≤ d.length) :
    Finds d (scanExtension b0 d o) (behindExtension b0 (d.drop o)) := by
  unfold scanExtension behindExtension
  split
  · by_cases hshort : d.length < o + 4
    · have hreach : reach d (o + 4) = throw .truncated := if_pos hshort
      have hrest : (d.drop o).length < 4 := by
        rw [List.length_drop]
        omega
      exact .inl ⟨.truncated, by rw [hreach]; rfl, skipExtension_of_short hrest⟩
    · have hlong := Nat.le_of_not_lt hshort
      obtain ⟨p1, p0, high, low, hrest⟩ := drop_eq_of_reach hlong
      have hhigh : octet d (o + 2) = pure high := octet_of_some (by rw [← List.getElem?_drop, hrest]; rfl)
      have hlow : octet d (o + 3) = pure low := octet_of_some (by rw [← List.getElem?_drop, hrest]; rfl)
      have hreach : reach d (o + 4) = pure (o + 4) := if_neg hshort
      rw [hreach, hrest]
      simp only [pure_bind, hhigh, hlow]
      exact reach_finds hlong (Bytes.word16 high low).toNat
  · exact .inr ⟨o, h, rfl, rfl⟩

theorem scanPadding_cases (b0 : UInt8) (hd : 0 < d.length) (h : o ≤ d.length) :
    (∃ fault, scanPadding b0 d o = throw fault ∧ beforePadding b0 (d.drop o) = throw fault) ∨
      ∃ stop, o ≤ stop ∧ stop ≤ d.length ∧ scanPadding b0 d o = pure stop ∧
        beforePadding b0 (d.drop o) = pure ((d.take stop).drop o) := by
  unfold scanPadding beforePadding
  split
  · obtain ⟨pad, hpad⟩ : ∃ pad, d.getLast? = some pad := ⟨_, List.getLast?_eq_some_getLast (List.length_pos_iff.1 hd)⟩
    have hlast : octet d (d.length - 1) = pure pad := octet_of_some (by rw [← List.getLast?_eq_getElem?, hpad])
    rw [less_of_le hd, stripPadding, List.getLast?_drop, List.length_drop]
    simp only [pure_bind, hlast]
    by_cases hbad : pad = 0 ∨ d.length < o + pad.toNat
    · refine .inl ⟨.badPadding, by simp [hbad], ?_⟩
      by_cases hend : d.length ≤ o
      · rw [if_pos hend]
        rfl
      · have hbad' : pad = 0 ∨ d.length - o < pad.toNat := hbad.imp_right fun h => by omega
        rw [if_neg hend, hpad]
        simp only [Bool.or_eq_true, decide_eq_true_eq, if_pos hbad']
        rfl
    · obtain ⟨hzero, hfits⟩ := not_or.1 hbad
      have hpos : 0 < pad.toNat := Nat.pos_of_ne_zero fun h => hzero (UInt8.toNat_inj.1 h)
      have hroom : ¬ (pad = 0 ∨ d.length - o < pad.toNat) := not_or.2 ⟨hzero, by omega⟩
      refine .inr ⟨d.length - pad.toNat, by omega, by omega, ?_, ?_⟩
      · simp [hzero, hfits, less_of_le (show pad.toNat ≤ d.length by omega)]
      · rw [if_neg (show ¬ d.length ≤ o by omega), hpad, List.drop_take, Nat.sub_right_comm]
        simp only [Bool.or_eq_true, decide_eq_true_eq, if_neg hroom]
        rfl
  · refine .inr ⟨d.length, h, Nat.le_refl _, rfl, ?_⟩
    rw [List.take_length]

/-- **Reading by offsets** always has a result, that of reading off the front. -/
theorem scan_eq (d : Bytes) : (scan d).run = some (parse d) := by
  by_cases hshort : d.length < headerLength
  · rw [parse_of_short hshort, scan, if_pos hshort]
    rfl
  have hheader := Nat.le_of_not_lt hshort
  obtain ⟨b0, b1, s1, s0, t3, t2, t1, t0, c3, c2, c1, c0, rest, hd⟩ := exists_octets hheader
  have hoctet {i : Nat} {b : UInt8} (h : [b0, b1, s1, s0, t3, t2, t1, t0, c3, c2, c1, c0][i]? = some b) :
      octet d i = pure b := by
    obtain ⟨hi, -⟩ := List.getElem?_eq_some_iff.1 h
    have hleft : d[i]? = some b := by
      rw [hd, ← h]
      exact List.getElem?_append_left hi
    exact octet_of_some hleft
  have hrest : d.drop headerLength = rest := by
    rw [hd]
    rfl
  have hparse := parse_cons b0 b1 s1 s0 t3 t2 t1 t0 c3 c2 c1 c0 rest
  rw [← hd] at hparse
  rw [scan, if_neg hshort, hparse]
  simp only [hoctet (i := 0) rfl, hoctet (i := 1) rfl, hoctet (i := 2) rfl, hoctet (i := 3) rfl,
    hoctet (i := 4) rfl, hoctet (i := 5) rfl, hoctet (i := 6) rfl, hoctet (i := 7) rfl, hoctet (i := 8) rfl,
    hoctet (i := 9) rfl, hoctet (i := 10) rfl, hoctet (i := 11) rfl, pure_bind]
  split
  · rfl
  -- three parts of moving length: each time both ways are refused alike, or go on at the same place
  rcases hrest ▸ reach_finds hheader (b0 &&& 0x0f).toNat with ⟨fault, hscan, hskip⟩ | ⟨o, ho, hscan, hskip⟩
  · rw [hscan, hskip]
    rfl
  rw [hscan, hskip, pure_bind, pure_bind]
  rcases scanExtension_finds b0 ho with ⟨fault, hscan, hskip⟩ | ⟨o, ho, hscan, hskip⟩
  · rw [hscan, hskip]
    rfl
  rw [hscan, hskip, pure_bind, pure_bind]
  rcases scanPadding_cases b0 (Nat.lt_of_lt_of_le (by decide) hheader) ho with
    ⟨fault, hscan, hstrip⟩ | ⟨stop, hstart, hstop, hscan, hstrip⟩
  · rw [hscan, hstrip]
    rfl
  · rw [hscan, hstrip, pure_bind, pure_bind, stretch_of_le hstart hstop]
    rfl

end Packet
end Rtp
end VideoTransport
