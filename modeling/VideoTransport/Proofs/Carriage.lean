import VideoTransport.Proofs.Assembly
import VideoTransport.Proofs.Place
import VideoTransport.Proofs.Wire
/-!
# Carriage — what a datagram brings from its place

A datagram reads as a packet that carries the draft of its place: its marker, its unit's time, the number of its
position and the encrypted payload (`Place.parse`).  Hearing the packet is then hearing the draft, as far as the cipher
gives it back (`Assembler.heard_of_honest`, `Assembler.heard_of_sound`).
-/
namespace VideoTransport

open Serial (nth)

namespace Cipher

/-- What the cipher gives back is what it was given. -/
def IsHonest (c : Cipher) : Prop :=
  ∀ m data cover opened, c.encrypt m data = .ok cover → c.decrypt m cover = .ok opened → opened = data

/-- The cipher never fails and keeps to its overhead. -/
def IsDependable (c : Cipher) : Prop :=
  ∀ m data, ∃ cover, c.encrypt m data = .ok cover ∧ cover.length ≤ data.length + c.overhead

/-- The cipher never fails, keeps to its overhead and gives back what it was given. -/
def IsSound (c : Cipher) : Prop :=
  ∀ m data, ∃ cover, c.encrypt m data = .ok cover ∧ cover.length ≤ data.length + c.overhead ∧
    c.decrypt m cover = .ok data

theorem identity_isSound : identity.IsSound := fun _ data => ⟨data, rfl, Nat.le_refl _, rfl⟩

theorem IsSound.isDependable {c : Cipher} (h : c.IsSound) : c.IsDependable := by
  intro m data
  obtain ⟨cover, he, hl, -⟩ := h m data
  exact ⟨cover, he, hl⟩

theorem IsSound.isHonest {c : Cipher} (h : c.IsSound) : c.IsHonest := by
  intro m data cover opened he hd
  obtain ⟨cover', he', -, hd'⟩ := h m data
  rw [he] at he'
  obtain rfl := Except.ok.inj he'
  rw [hd] at hd'
  exact Except.ok.inj hd'

end Cipher

namespace Packetizer

variable {p : Packetizer} {units : List AccessUnit} {i : Nat}

/-! ## Datagrams -/

structure Place.Carries (x : Place p units i) (packet : Rtp.Packet) : Prop where
  marker : packet.header.marker = x.draft.marker
  timestamp : packet.header.timestamp = x.unit.timestamp
  sequence : packet.header.sequence = nth p.nextSequence i
  payload : p.cipher.encrypt packet.header.packetMeta x.draft.payload = .ok packet.payload

theorem issued_at (x : Place p units i) :
    (p.issued units)[i]? = some ((p.startAt (nth p.nextSequence i)).emit x.unit.timestamp x.draft).1 := by
  rw [issued, getElem?_issue, x.plan_at]
  rfl

/-- **A datagram that was sent from a place reads as a packet that carries the draft there.** -/
theorem Place.parse (x : Place p units i) {datagram : Bytes} (h : (p.issued units)[i]? = some (some datagram)) :
    ∃ packet, Rtp.Packet.parse datagram = .ok packet ∧ x.Carries packet := by
  rw [issued_at x] at h
  have he := Option.some.inj h
  unfold emit at he
  simp only at he
  split at he
  · cases he
  · rename_i payload hp
    split at he
    · cases he
    · obtain rfl := Option.some.inj he
      exact ⟨_, Rtp.Packet.parse_write _ _, rfl, rfl, rfl, hp⟩

theorem emit_of_encrypt {timestamp : UInt32} {d : Draft} {payload : Bytes}
    (he : p.cipher.encrypt ⟨timestamp, p.nextSequence, p.ssrc, d.marker⟩ d.payload = .ok payload)
    (hl : payload.length ≤ d.payload.length + p.cipher.overhead) :
    (p.emit timestamp d).1 =
      some (Rtp.Header.write ⟨d.marker, p.payloadType, p.nextSequence, timestamp, p.ssrc⟩ ++ payload) := by
  have hcover : p.cipher.encrypt
      (Rtp.Header.packetMeta ⟨d.marker, p.payloadType, p.counter.next.1, timestamp, p.ssrc⟩) d.payload =
        .ok payload := he
  unfold emit
  simp only [hcover, if_neg (Nat.not_lt.2 hl)]
  rfl

theorem issued_of_sound (hc : p.cipher.IsSound) (x : Place p units i) :
    ∃ datagram, (p.issued units)[i]? = some (some datagram) := by
  obtain ⟨cover, he, hl, -⟩ := hc ⟨x.unit.timestamp, nth p.nextSequence i, p.ssrc, x.draft.marker⟩ x.draft.payload
  exact ⟨_, (issued_at x).trans (congrArg some (emit_of_encrypt he hl))⟩

theorem length_issued : (p.issued units).length = p.span units := length_issue _ p

/-- A dependable cipher lets every draft out. -/
theorem issue_of_dependable : ∀ (drafts : List (UInt32 × Draft)) (p : Packetizer), p.cipher.IsDependable →
    ∃ packets : List Bytes, p.issue drafts = packets.map some
  | [], _, _ => ⟨[], rfl⟩
  | (timestamp, d) :: rest, p, hc => by
    obtain ⟨cover, he, hl⟩ := hc ⟨timestamp, p.nextSequence, p.ssrc, d.marker⟩ d.payload
    obtain ⟨packets, hrest⟩ := issue_of_dependable rest (p.startAt (p.nextSequence + 1)) hc
    exact ⟨_ :: packets, by rw [issue, emit_of_encrypt he hl, emit_snd, hrest, List.map_cons]⟩

/-- **With a sound cipher the packets sent are all that were issued.** -/
theorem getElem?_packetsOf (hc : p.cipher.IsSound) (units : List AccessUnit) (i : Nat) :
    (p.packetsOf units)[i]?.map some = (p.issued units)[i]? := by
  obtain ⟨packets, hissue⟩ := issue_of_dependable (units.flatMap p.plan) p hc.isDependable
  have hmap : (p.packetsOf units).map some = p.issued units := by
    rw [packetsOf_eq, issued, hissue, List.filterMap_map]
    exact congrArg (List.map some) List.filterMap_some
  rw [← hmap, List.getElem?_map]

theorem length_packetsOf (hc : p.cipher.IsSound) : (p.packetsOf units).length = p.span units := by
  have h1 := getElem?_packetsOf hc units (p.span units)
  have h2 := getElem?_packetsOf hc units (p.packetsOf units).length
  rw [List.getElem?_eq_none_iff.2 (Nat.le_of_eq length_issued), Option.map_eq_none_iff, List.getElem?_eq_none_iff] at h1
  rw [List.getElem?_eq_none_iff.2 (Nat.le_refl _), Option.map_none, eq_comm, List.getElem?_eq_none_iff,
    length_issued] at h2
  exact Nat.le_antisymm h1 h2

end Packetizer

/-! ## Hearing -/

namespace Assembler

open Packetizer (Place)

variable {p : Packetizer} {units : List AccessUnit} {i : Nat} {a : Assembler} {x : Place p units i}
  {packet : Rtp.Packet}

theorem heard_of_honest (hc : p.cipher.IsHonest) (ha : a.cipher = p.cipher) (h : x.Carries packet)
    (content : FrameContent) :
    a.heard packet content = content.hear x.draft.payload ∨ a.heard packet content = .broken := by
  unfold heard
  rw [ha]
  split
  · exact .inr rfl
  · rename_i data hd
    rw [hc _ _ _ _ h.payload hd]
    exact .inl rfl

theorem heard_of_sound (hc : p.cipher.IsSound) (ha : a.cipher = p.cipher) (h : x.Carries packet)
    (content : FrameContent) : a.heard packet content = content.hear x.draft.payload := by
  obtain ⟨cover, he, -, hd⟩ := hc packet.header.packetMeta x.draft.payload
  rw [h.payload] at he
  obtain rfl := Except.ok.inj he
  rw [heard, ha, hd]

end Assembler
end VideoTransport
