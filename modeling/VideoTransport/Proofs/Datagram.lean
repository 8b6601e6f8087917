import VideoTransport.Proofs.Offsets
import VideoTransport.Proofs.Wire
/-!
# Datagram — the packets that reading accepts

A media packet is laid out in parts: twelve octets of header, the contributing sources, maybe an extension, the payload,
and maybe padding (`Rtp.Layout`).  A part takes from the front, or from the end, what the octets of its writing are
(`skipWords_eq_ok_iff`, `behindExtension_eq_ok_iff`, `beforePadding_eq_ok_iff`), and so reading accepts exactly the
datagrams that are laid out so, and gives back the header and the payload (`Rtp.Packet.parse_exact`).
-/
namespace VideoTransport

theorem bind_eq_ok_iff {α β : Type} {x : Except Malformation α} {f : α → Except Malformation β} {b : β} :
    x >>= f = .ok b ↔ ∃ a, x = .ok a ∧ f a = .ok b := by
  cases x with
  | error fault =>
    constructor
    · intro h
      cases h
    · rintro ⟨_, h, -⟩
      cases h
  | ok a =>
    constructor
    · exact fun h => ⟨a, rfl, h⟩
    · rintro ⟨_, h, hb⟩
      cases h
      exact hb

/-! ## Words -/

namespace Bytes

theorem ofWord16_word16 (a b : UInt8) : ofWord16 (word16 a b) = [a, b] := by
  have ha := a.toNat_lt
  have hb := b.toNat_lt
  have hword : (word16 a b).toNat = a.toNat * 256 + b.toNat := by
    rw [word16, UInt16.toNat_ofNat']
    omega
  rw [ofWord16, hword, List.cons.injEq, List.cons.injEq]
  refine ⟨UInt8.toNat_inj.1 ?_, UInt8.toNat_inj.1 ?_, rfl⟩ <;> rw [UInt8.toNat_ofNat'] <;> omega

theorem ofWord32_word32 (a b c d : UInt8) : ofWord32 (word32 a b c d) = [a, b, c, d] := by
  have ha := a.toNat_lt
  have hb := b.toNat_lt
  have hc := c.toNat_lt
  have hd := d.toNat_lt
  have hword : (word32 a b c d).toNat = a.toNat * 16777216 + b.toNat * 65536 + c.toNat * 256 + d.toNat := by
    rw [word32, UInt32.toNat_ofNat']
    omega
  rw [ofWord32, hword, List.cons.injEq, List.cons.injEq, List.cons.injEq, List.cons.injEq]
  refine ⟨UInt8.toNat_inj.1 ?_, UInt8.toNat_inj.1 ?_, UInt8.toNat_inj.1 ?_, UInt8.toNat_inj.1 ?_, rfl⟩ <;>
    rw [UInt8.toNat_ofNat'] <;> omega

theorem length_flatMap_ofWord32 (words : List UInt32) : (words.flatMap ofWord32).length = 4 * words.length := by
  simp [List.length_flatMap, List.map_const', Nat.mul_comm]

/-- Four times as many octets are the writing of so many words. -/
theorem exists_words : ∀ (n : Nat) (data : Bytes), data.length = 4 * n →
    ∃ words : List UInt32, words.length = n ∧ words.flatMap ofWord32 = data
  | 0, _, h => ⟨[], rfl, (List.length_eq_zero_iff.1 h).symm⟩
  | n + 1, a :: b :: c :: d :: rest, h => by
    have hrest : rest.length = 4 * n := by
      simp only [List.length_cons] at h
      omega
    obtain ⟨words, rfl, rfl⟩ := exists_words n rest hrest
    exact ⟨word32 a b c d :: words, rfl, by rw [List.flatMap_cons, ofWord32_word32]; rfl⟩

end Bytes

namespace Rtp

/-! ## The layout -/

/-- A header extension: a mark that says what it is for, and words, whose number it tells in sixteen bits. -/
structure Extension where
  profile : UInt16
  words : List UInt32
  fits : words.length < 65536

def Extension.write (e : Extension) : Bytes :=
  Bytes.ofWord16 e.profile ++ Bytes.ofWord16 (UInt16.ofNat e.words.length) ++ e.words.flatMap Bytes.ofWord32

/-- Padding: any octets, and one that tells how many there are with it. -/
structure Padding where
  filler : Bytes
  fits : filler.length < 255

def Padding.write (p : Padding) : Bytes := p.filler ++ [UInt8.ofNat (p.filler.length + 1)]

/-- The first octet: version 2 in two bits, a bit for the padding, one for the extension, and the number of the
contributing sources in four. -/
def firstOctet (isPadded isExtended : Bool) (sources : Nat) : UInt8 :=
  UInt8.ofNat (2 * 64 + isPadded.toNat * 32 + isExtended.toNat * 16 + sources)

/-- The second octet: a bit for the marker, and the payload type in seven. -/
def secondOctet (marker : Bool) (payloadType : UInt8) : UInt8 :=
  UInt8.ofNat (marker.toNat * 128 + payloadType.toNat)

/-- A header in all but the first of its octets. -/
def Header.octets (h : Header) : Bytes :=
  secondOctet h.marker h.payloadType ::
    (Bytes.ofWord16 h.sequence ++ Bytes.ofWord32 h.timestamp ++ Bytes.ofWord32 h.ssrc)

/-- A packet in all its parts. -/
structure Layout where
  header : Header
  sources : List UInt32
  extension : Option Extension
  payload : Bytes
  padding : Option Padding
  typeFits : header.payloadType < 0x80
  sourcesFit : sources.length < 16

namespace Layout

def write (l : Layout) : Bytes :=
  firstOctet l.padding.isSome l.extension.isSome l.sources.length :: l.header.octets ++
    (l.sources.flatMap Bytes.ofWord32 ++
      (l.extension.elim [] Extension.write ++ (l.payload ++ l.padding.elim [] Padding.write)))

def packet (l : Layout) : Packet := ⟨l.header, l.payload⟩

theorem headerLength_le_length_write (l : Layout) : headerLength ≤ l.write.length := by
  rw [write, List.length_append]
  exact Nat.le_add_right 12 _

end Layout

/-! ## Bits -/

/-- The first octets are those whose upper bits hold version 2, and each bit of theirs has its meaning. -/
theorem firstOctet_eq_iff {isPadded isExtended : Bool} {sources : Nat} {b0 : UInt8} :
    sources < 16 ∧ firstOctet isPadded isExtended sources = b0 ↔
      b0 >>> 6 = 2 ∧ isPadded = decide (b0 &&& 0x20 ≠ 0) ∧ isExtended = decide (b0 &&& 0x10 ≠ 0) ∧
        sources = (b0 &&& 0x0f).toNat := by
  constructor
  · rintro ⟨hfits, rfl⟩
    -- a bit each for padding and extension, and sixteen numbers of sources: sixty-four octets
    have hall : ∀ isPadded isExtended : Bool, ∀ sources : Fin 16, let b0 := firstOctet isPadded isExtended sources
        b0 >>> 6 = 2 ∧ isPadded = decide (b0 &&& 0x20 ≠ 0) ∧ isExtended = decide (b0 &&& 0x10 ≠ 0) ∧
          sources = (b0 &&& 0x0f).toNat := by decide
    exact hall isPadded isExtended ⟨sources, hfits⟩
  · rintro ⟨hversion, rfl, rfl, rfl⟩
    have hall : ∀ i : Fin 256, let b0 := UInt8.ofFin i
        b0 >>> 6 = 2 → (b0 &&& 0x0f).toNat < 16 ∧
          firstOctet (decide (b0 &&& 0x20 ≠ 0)) (decide (b0 &&& 0x10 ≠ 0)) (b0 &&& 0x0f).toNat = b0 := by
      decide +kernel
    exact hall b0.toFin hversion

theorem secondOctet_bits {marker : Bool} {payloadType : UInt8} (h : payloadType < 0x80) :
    decide (secondOctet marker payloadType &&& 0x80 ≠ 0) = marker ∧
      secondOctet marker payloadType &&& 0x7f = payloadType := by
  have hall : ∀ marker : Bool, ∀ i : Fin 128, let payloadType := UInt8.ofNat i
      decide (secondOctet marker payloadType &&& 0x80 ≠ 0) = marker ∧
        secondOctet marker payloadType &&& 0x7f = payloadType := by decide +kernel
  have hfin := hall marker ⟨payloadType.toNat, h⟩
  rwa [UInt8.ofNat_toNat] at hfin

theorem secondOctet_of_bits (b1 : UInt8) : secondOctet (decide (b1 &&& 0x80 ≠ 0)) (b1 &&& 0x7f) = b1 := by
  have hall : ∀ i : Fin 256, let b1 := UInt8.ofFin i
      secondOctet (decide (b1 &&& 0x80 ≠ 0)) (b1 &&& 0x7f) = b1 := by decide +kernel
  exact hall b1.toFin

theorem toNat_and_mask (b : UInt8) : (b &&& 0x7f).toNat = b.toNat % 128 := by
  rw [UInt8.toNat_and]
  exact Nat.and_two_pow_sub_one_eq_mod b.toNat 7

theorem and_mask_lt (b : UInt8) : b &&& 0x7f < 0x80 := by
  rw [UInt8.lt_iff_toNat_lt, toNat_and_mask]
  exact Nat.mod_lt _ (by decide)

theorem and_mask_of_lt {b : UInt8} (h : b < 0x80) : b &&& 0x7f = b := by
  apply UInt8.toNat_inj.1
  rw [toNat_and_mask]
  exact Nat.mod_eq_of_lt (UInt8.lt_iff_toNat_lt.1 h)

/-! ## Part by part -/

/-- Eleven octets are those of the header that they are read as. -/
theorem Header.ofOctets_eq_iff {b1 s1 s0 t3 t2 t1 t0 c3 c2 c1 c0 : UInt8} {h : Header} :
    ofOctets b1 s1 s0 t3 t2 t1 t0 c3 c2 c1 c0 = h ↔
      h.payloadType < 0x80 ∧ h.octets = [b1, s1, s0, t3, t2, t1, t0, c3, c2, c1, c0] := by
  constructor
  · rintro rfl
    refine ⟨and_mask_lt b1, ?_⟩
    rw [octets, ofOctets, secondOctet_of_bits, Bytes.ofWord16_word16, Bytes.ofWord32_word32, Bytes.ofWord32_word32]
    rfl
  · rintro ⟨htype, hoctets⟩
    obtain ⟨hmarker, hpayloadType⟩ := @secondOctet_bits h.marker h.payloadType htype
    have hs := Bytes.word16_ofWord16 h.sequence
    have ht := Bytes.word32_ofWord32 h.timestamp
    have hc := Bytes.word32_ofWord32 h.ssrc
    simp only [octets, Bytes.ofWord16, Bytes.ofWord32, List.cons_append, List.nil_append, List.cons.injEq,
      and_true] at hoctets
    obtain ⟨rfl, rfl, rfl, rfl, rfl, rfl, rfl, rfl, rfl, rfl, rfl⟩ := hoctets
    rw [ofOctets, hmarker, hpayloadType, hs, ht, hc]

namespace Packet

variable {data rest payload : Bytes}

theorem skipWords_eq_ok_iff {n : Nat} :
    skipWords n data = .ok rest ↔ ∃ words : List UInt32, words.length = n ∧ words.flatMap Bytes.ofWord32 ++ rest = data := by
  unfold skipWords
  constructor
  · intro h
    split at h
    · cases h
    · obtain rfl := Except.ok.inj h
      have htake : (data.take (4 * n)).length = 4 * n := by
        rw [List.length_take]
        omega
      obtain ⟨words, hlength, hwords⟩ := Bytes.exists_words n _ htake
      exact ⟨words, hlength, by rw [hwords, List.take_append_drop]⟩
  · rintro ⟨words, rfl, rfl⟩
    have hlength := Bytes.length_flatMap_ofWord32 words
    rw [List.length_append, hlength, if_neg (by omega), List.drop_left' hlength]

theorem skipExtension_eq_ok_iff : skipExtension data = .ok rest ↔ ∃ e : Extension, e.write ++ rest = data := by
  constructor
  · intro h
    unfold skipExtension at h
    split at h
    · rename_i p1 p0 high low words
      obtain ⟨words, hlength, rfl⟩ := skipWords_eq_ok_iff.1 h
      have hcount : UInt16.ofNat words.length = Bytes.word16 high low := by
        rw [hlength, UInt16.ofNat_toNat]
      refine ⟨⟨Bytes.word16 p1 p0, words, hlength ▸ UInt16.toNat_lt _⟩, ?_⟩
      simp only [Extension.write, hcount, Bytes.ofWord16_word16]
      rfl
    · cases h
  · rintro ⟨e, rfl⟩
    have hcount : (UInt16.ofNat e.words.length).toNat = e.words.length := by
      rw [UInt16.toNat_ofNat', Nat.mod_eq_of_lt e.fits]
    have hword := Bytes.word16_ofWord16 (UInt16.ofNat e.words.length)
    exact skipWords_eq_ok_iff.2 ⟨e.words, by rw [hword, hcount], rfl⟩

theorem exists_padding {pad : UInt8} (hlast : data.getLast? = some pad) (hpad : pad ≠ 0)
    (hfits : pad.toNat ≤ data.length) : ∃ p : Padding, data.take (data.length - pad.toNat) ++ p.write = data := by
  have hpos : 0 < pad.toNat := Nat.pos_of_ne_zero fun h => hpad (UInt8.toNat_inj.1 h)
  have hbound := pad.toNat_lt
  -- what is cut off is not empty, and so it ends in the octet that tells its length
  have hcut : (data.drop (data.length - pad.toNat)).getLast? = some pad := by
    rw [List.getLast?_drop, if_neg (by omega), hlast]
  obtain ⟨filler, hfiller⟩ := List.getLast?_eq_some_iff.1 hcut
  have hlength : filler.length + 1 = pad.toNat := by
    have hdrop := congrArg List.length hfiller
    rw [List.length_drop, List.length_append, List.length_singleton] at hdrop
    omega
  refine ⟨⟨filler, by omega⟩, ?_⟩
  simp only [Padding.write, hlength, UInt8.ofNat_toNat]
  rw [← hfiller, List.take_append_drop]

theorem stripPadding_append_write (payload : Bytes) (p : Padding) : stripPadding (payload ++ p.write) = .ok payload := by
  have hfits := p.fits
  have hpad : (UInt8.ofNat (p.filler.length + 1)).toNat = p.filler.length + 1 := by
    rw [UInt8.toNat_ofNat']
    omega
  have hpos : UInt8.ofNat (p.filler.length + 1) ≠ 0 := fun h => by
    rw [h] at hpad
    cases hpad
  have hlast : (payload ++ p.write).getLast? = some (UInt8.ofNat (p.filler.length + 1)) :=
    List.getLast?_eq_some_iff.2 ⟨payload ++ p.filler, (List.append_assoc ..).symm⟩
  have hlength : (payload ++ p.write).length = payload.length + (p.filler.length + 1) := by
    simp only [Padding.write, List.length_append, List.length_singleton]
  rw [stripPadding, hlast]
  simp only [hpad, hlength, Nat.add_sub_cancel_right, List.take_left]
  rw [if_neg]
  simp only [Bool.or_eq_true, decide_eq_true_eq, not_or]
  exact ⟨hpos, by omega⟩

theorem stripPadding_eq_ok_iff : stripPadding data = .ok payload ↔ ∃ p : Padding, payload ++ p.write = data := by
  constructor
  · intro h
    unfold stripPadding at h
    split at h
    · cases h
    · rename_i pad hlast
      split at h
      · cases h
      · rename_i hgood
        simp only [Bool.or_eq_true, decide_eq_true_eq, not_or, Nat.not_lt] at hgood
        obtain rfl := Except.ok.inj h
        exact exists_padding hlast hgood.1 hgood.2
  · rintro ⟨p, rfl⟩
    exact stripPadding_append_write payload p

/-- A part that may be missing. -/
theorem optional_eq_ok_iff {α : Type} {isThere : Prop} [Decidable isThere] {x : Except Malformation Bytes}
    {Q : α → Prop} (h : x = .ok rest ↔ ∃ a, Q a) :
    (if isThere then x else pure data) = .ok rest ↔
      ∃ o : Option α, o.isSome = decide isThere ∧ o.elim (data = rest) Q := by
  split
  · rename_i hthere
    rw [h, decide_eq_true hthere]
    constructor
    · rintro ⟨a, ha⟩
      exact ⟨some a, rfl, ha⟩
    · rintro ⟨_ | a, hsome, ha⟩
      · cases hsome
      · exact ⟨a, ha⟩
  · rename_i hmissing
    rw [decide_eq_false hmissing]
    constructor
    · intro h
      exact ⟨none, rfl, Except.ok.inj h⟩
    · rintro ⟨_ | a, hsome, ha⟩
      · exact congrArg Except.ok ha
      · cases hsome

theorem behindExtension_eq_ok_iff {b0 : UInt8} : behindExtension b0 data = .ok rest ↔
    ∃ e : Option Extension, e.isSome = decide (b0 &&& 0x10 ≠ 0) ∧ e.elim [] Extension.write ++ rest = data := by
  refine (optional_eq_ok_iff skipExtension_eq_ok_iff).trans (exists_congr fun e => and_congr_right fun _ => ?_)
  cases e with
  | none => exact eq_comm
  | some e => exact Iff.rfl

theorem beforePadding_eq_ok_iff {b0 : UInt8} : beforePadding b0 data = .ok payload ↔
    ∃ p : Option Padding, p.isSome = decide (b0 &&& 0x20 ≠ 0) ∧ payload ++ p.elim [] Padding.write = data := by
  refine (optional_eq_ok_iff stripPadding_eq_ok_iff).trans (exists_congr fun p => and_congr_right fun _ => ?_)
  cases p with
  | none => rw [Option.elim_none, Option.elim_none, List.append_nil, eq_comm]
  | some p => exact Iff.rfl

/-! ## Reading -/

/-- **Reading accepts** exactly what is laid out as a packet, and gives back its header and its payload. -/
theorem parse_eq_ok_iff {d : Bytes} {p : Packet} : parse d = .ok p ↔ ∃ l : Layout, l.write = d ∧ l.packet = p := by
  by_cases hshort : d.length < headerLength
  · rw [parse_of_short hshort]
    refine iff_of_false (fun h => by cases h) ?_
    rintro ⟨l, rfl, -⟩
    exact Nat.not_lt.2 l.headerLength_le_length_write hshort
  obtain ⟨b0, b1, s1, s0, t3, t2, t1, t0, c3, c2, c1, c0, rest, rfl⟩ := exists_octets (Nat.le_of_not_lt hshort)
  rw [parse_cons]
  constructor
  · intro h
    split at h
    · cases h
    · rename_i hversion
      obtain ⟨behind, hskip, h⟩ := bind_eq_ok_iff.1 h
      obtain ⟨unpadded, hextension, h⟩ := bind_eq_ok_iff.1 h
      obtain ⟨payload, hpadding, hpacket⟩ := bind_eq_ok_iff.1 h
      obtain ⟨sources, hcount, rfl⟩ := skipWords_eq_ok_iff.1 hskip
      obtain ⟨extension, hextended, rfl⟩ := behindExtension_eq_ok_iff.1 hextension
      obtain ⟨padding, hpadded, rfl⟩ := beforePadding_eq_ok_iff.1 hpadding
      obtain ⟨hfits, hfirst⟩ := firstOctet_eq_iff.2 ⟨not_not.1 hversion, hpadded, hextended, hcount⟩
      obtain ⟨htype, hoctets⟩ := Header.ofOctets_eq_iff.1 (Eq.refl (Header.ofOctets b1 s1 s0 t3 t2 t1 t0 c3 c2 c1 c0))
      refine ⟨⟨_, sources, extension, payload, padding, htype, hfits⟩, ?_, Except.ok.inj hpacket⟩
      simp only [Layout.write, hfirst, hoctets]
      rfl
  · rintro ⟨l, hwrite, rfl⟩
    obtain ⟨hfirst, hwrite⟩ := List.cons.inj hwrite
    have hparts : l.header.octets ++ _ = [b1, s1, s0, t3, t2, t1, t0, c3, c2, c1, c0] ++ rest := hwrite
    obtain ⟨hoctets, hrest⟩ := List.append_inj hparts rfl
    obtain ⟨hversion, hpadded, hextended, hcount⟩ := firstOctet_eq_iff.1 ⟨l.sourcesFit, hfirst⟩
    rw [if_neg (not_not.2 hversion), Header.ofOctets_eq_iff.2 ⟨l.typeFits, hoctets⟩]
    refine bind_eq_ok_iff.2 ⟨_, skipWords_eq_ok_iff.2 ⟨l.sources, hcount, hrest⟩, ?_⟩
    refine bind_eq_ok_iff.2 ⟨_, behindExtension_eq_ok_iff.2 ⟨l.extension, hextended, rfl⟩, ?_⟩
    exact bind_eq_ok_iff.2 ⟨_, beforePadding_eq_ok_iff.2 ⟨l.padding, hpadded, rfl⟩, rfl⟩

end Packet

/-- **The packets.**  Reading accepts a datagram if and only if it is laid out as a packet, and gives back the header
and the payload of the layout; what is written as a header and a payload reads as these two; and whatever the datagram,
reading by offsets never reaches outside of it, and ends the same. -/
theorem Packet.parse_exact :
    (∀ d p, parse d = .ok p ↔ ∃ l : Layout, l.write = d ∧ l.packet = p) ∧
    (∀ h payload, h.payloadType < 0x80 → parse (h.write ++ payload) = .ok ⟨h, payload⟩) ∧
    ∀ d, (scan d).run = some (parse d) := by
  refine ⟨fun d p => parse_eq_ok_iff, fun h payload htype => ?_, scan_eq⟩
  rw [parse_write, and_mask_of_lt htype]

/-- A packet with all parts. -/
def Layout.sample : Layout where
  header := ⟨true, 96, 0x1234, 0x01020304, 0xaabbccdd⟩
  sources := [0x09090909]
  extension := some ⟨0xbede, [0x07070707], by decide⟩
  payload := [0x61, 0xaa]
  padding := some ⟨[0, 0], by decide⟩
  typeFits := by decide
  sourcesFit := by decide

theorem Packet.parse_exact_sample :
    parse Layout.sample.write = .ok Layout.sample.packet ∧
    parse (Layout.sample.header.write ++ [0x65]) = .ok ⟨Layout.sample.header, [0x65]⟩ ∧
    (scan Layout.sample.write).run = some (parse Layout.sample.write) :=
  ⟨(parse_exact.1 _ _).2 ⟨.sample, rfl, rfl⟩, parse_exact.2.1 _ _ Layout.sample.typeFits, parse_exact.2.2 _⟩

end Rtp
end VideoTransport
