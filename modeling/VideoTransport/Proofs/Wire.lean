import VideoTransport.Nal.Payload
import VideoTransport.Rtp
/-!
# Wire — what is written reads back

A datagram written as a header and a payload reads as these two (`parse_write`).  A payload reads as a whole NAL unit
when its type is one that travels whole (`read_single`), and a written fragment reads as a fragment of the same NAL
unit (`read_write`).
-/
namespace VideoTransport

theorem or_and_mask (a b mask : UInt8) : (a ||| b) &&& mask = (a &&& mask) ||| (b &&& mask) :=
  UInt8.toBitVec_inj.1 BitVec.and_or_distrib_right

theorem and_disjoint (a : UInt8) {m n : UInt8} (h : m &&& n = 0) : a &&& m &&& n = 0 := by
  rw [UInt8.and_assoc, h, UInt8.and_zero]

/-! ## Headers -/

namespace Rtp

theorem Header.marker_markerOctet (h : Header) : decide (h.markerOctet &&& 0x80 ≠ 0) = h.marker := by
  rw [markerOctet, or_and_mask, and_disjoint _ (show (0x7f : UInt8) &&& 0x80 = 0 by decide)]
  cases h.marker <;> decide

theorem Header.payloadType_markerOctet (h : Header) : h.markerOctet &&& 0x7f = h.payloadType &&& 0x7f := by
  rw [markerOctet, or_and_mask, UInt8.and_assoc]
  cases h.marker
  · exact UInt8.zero_or
  · exact UInt8.zero_or

/-- **A written datagram reads back**, the payload type without its eighth bit, whose place the marker takes. -/
theorem Packet.parse_write (h : Header) (payload : Bytes) :
    Packet.parse (h.write ++ payload) = .ok ⟨{ h with payloadType := h.payloadType &&& 0x7f }, payload⟩ := by
  have hs : Bytes.word16 (UInt8.ofNat (h.sequence.toNat / 256)) (UInt8.ofNat h.sequence.toNat) = h.sequence :=
    Bytes.word16_ofWord16 h.sequence
  rw [← h.payloadType_markerOctet, ← hs, ← Bytes.word32_ofWord32 h.timestamp, ← Bytes.word32_ofWord32 h.ssrc,
    ← h.marker_markerOctet]
  rfl

end Rtp

/-! ## Payloads -/

theorem Payload.read_single {nal : Bytes} {kind : UInt8} (hk : Nal.kind? nal = some kind)
    (hs : Nal.isSingle kind = true) : Payload.read nal = .ok (.single nal) := by
  cases nal with
  | nil => cases hk
  | cons header rest =>
    obtain rfl : Nal.typeOf header = kind := Option.some.inj hk
    simp only [read, hs, if_true]

namespace Fragment

theorem typeOf_indicator (f : Fragment) : Nal.typeOf f.indicator = Nal.fragment := by
  rw [Nal.typeOf, indicator, or_and_mask, and_disjoint _ (by decide)]
  decide

/-- The indicator keeps what the NAL header needs of the header octet. -/
theorem nalHeader_indicator (f : Fragment) : nalHeader { f with header := f.indicator } = f.nalHeader := by
  show f.indicator &&& 0xe0 ||| f.kind = f.nalHeader
  rw [indicator, or_and_mask, UInt8.and_assoc, show Nal.fragment &&& 0xe0 = 0 by decide, UInt8.or_zero, nalHeader]
  rfl

/-- A fragment of the type that its header octet names belongs to the NAL unit with this header. -/
theorem nalHeader_of_kind {f : Fragment} (h : f.kind = Nal.typeOf f.header) : f.nalHeader = f.header := by
  have hall : f.header &&& (0xe0 ||| 0x1f) = (f.header &&& 0xe0) ||| (f.header &&& 0x1f) :=
    UInt8.toBitVec_inj.1 BitVec.and_or_distrib_left
  rw [nalHeader, h, Nal.typeOf, ← hall]
  exact UInt8.and_neg_one

theorem typeOf_flags {f : Fragment} (h : Nal.typeOf f.kind = f.kind) : Nal.typeOf f.flags = f.kind := by
  conv => rhs; rw [← h]
  rw [Nal.typeOf, flags, or_and_mask]
  cases f.isFirst <;> cases f.isLast <;> exact UInt8.zero_or

theorem isFirst_flags {f : Fragment} (h : Nal.typeOf f.kind = f.kind) : decide (f.flags &&& 0x80 ≠ 0) = f.isFirst := by
  rw [flags, or_and_mask, ← h, Nal.typeOf, and_disjoint _ (by decide), UInt8.or_zero]
  cases f.isFirst <;> cases f.isLast <;> decide

theorem isLast_flags {f : Fragment} (h : Nal.typeOf f.kind = f.kind) : decide (f.flags &&& 0x40 ≠ 0) = f.isLast := by
  rw [flags, or_and_mask, ← h, Nal.typeOf, and_disjoint _ (by decide), UInt8.or_zero]
  cases f.isFirst <;> cases f.isLast <;> decide

/-- **A written fragment reads back**, its header octet replaced by the indicator. -/
theorem read_write {f : Fragment} (h : Nal.typeOf f.kind = f.kind) :
    Payload.read f.write = .ok (.fragment { f with header := f.indicator }) := by
  have hns : Nal.isSingle Nal.fragment = false := by decide
  simp only [write, Payload.read, typeOf_indicator, hns, Bool.false_eq_true, if_false, if_true, typeOf_flags h]
  rw [isFirst_flags h, isLast_flags h]

end Fragment
end VideoTransport
