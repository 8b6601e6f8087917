import VideoTransport.Proofs.Convoy
import VideoTransport.Proofs.Following
/-!
# RoundTrip — an access unit taken apart and put together again

The packets of an access unit are a convoy whose payloads are those planned for its NAL units (`conveys_packets`).
So an assembler that has seen any traffic before gives the unit back when it is handed these packets, as long as none
of its frames is of the unit's time and no packet right before them is missing (`processAll_packets`).
-/
namespace VideoTransport

/-! ## The convoy of a unit -/

namespace Packetizer

theorem parse_emit {p : Packetizer} (hc : p.cipher.IsSound) (timestamp : UInt32) (d : Draft) : ∃ datagram packet,
    (p.emit timestamp d).1 = some datagram ∧ Rtp.Packet.parse datagram = .ok packet ∧
      packet.header.timestamp = timestamp ∧ packet.header.sequence = p.nextSequence ∧
      packet.header.marker = d.marker ∧
      ∀ a : Assembler, a.cipher = p.cipher → ∀ content, a.heard packet content = content.hear d.payload := by
  let header : Rtp.Header := ⟨d.marker, p.payloadType, p.nextSequence, timestamp, p.ssrc⟩
  obtain ⟨cover, hencrypt, hlength, hdecrypt⟩ := hc header.packetMeta d.payload
  refine ⟨_, _, emit_of_encrypt hencrypt hlength, Rtp.Packet.parse_write header cover, rfl, rfl, rfl, ?_⟩
  intro a ha content
  -- The cipher sees the same of the packet on both ends; the payload type is not part of it.
  have hopen : a.cipher.decrypt
      (Rtp.Header.packetMeta { header with payloadType := header.payloadType &&& 0x7f }) cover = .ok d.payload :=
    ha ▸ hdecrypt
  rw [Assembler.heard, hopen]

theorem conveys_issue (timestamp : UInt32) : ∀ (payloads : List Bytes) (p : Packetizer), p.cipher.IsSound →
    ∃ packets, ((p.issue ((Plan.markLast payloads).map (timestamp, ·))).filterMap id).mapM Rtp.Packet.parse =
      .ok packets ∧ Assembler.Conveys p.cipher timestamp p.nextSequence payloads packets
  | [], _, _ => ⟨[], rfl, trivial, rfl, fun _ _ _ => rfl⟩
  | payload :: rest, p, hc => by
    obtain ⟨datagram, packet, hemit, hparse, htime, hsequence, hmarker, hheard⟩ :=
      parse_emit hc timestamp ⟨rest.isEmpty, payload⟩
    obtain ⟨packets, hparses, hconvoy, hlength, hrest⟩ :=
      conveys_issue timestamp rest (p.startAt (p.nextSequence + 1)) hc
    have hempty : rest.isEmpty = packets.isEmpty := by
      rw [Bool.eq_iff_iff, List.isEmpty_iff_length_eq_zero, List.isEmpty_iff_length_eq_zero, hlength]
    refine ⟨packet :: packets, ?_, ⟨htime, hsequence, hmarker.trans hempty, hconvoy⟩, congrArg Nat.succ hlength,
      fun a ha content => ?_⟩
    · rw [Plan.markLast_cons, List.map_cons, issue, hemit, emit_snd, List.filterMap_cons, id, List.mapM_cons, hparse,
        hparses]
      rfl
    · rw [Assembler.heardAll, List.foldl_cons, hheard a ha, List.foldl_cons]
      exact hrest a ha (content.hear payload)

/-- **The packets of an access unit read as a convoy** that brings the payloads planned for its NAL units. -/
theorem conveys_packets {p : Packetizer} (hc : p.cipher.IsSound) (u : AccessUnit) : ∃ packets,
    (p.packets u).1.mapM Rtp.Packet.parse = .ok packets ∧
      Assembler.Conveys p.cipher u.timestamp p.nextSequence
        ((AnnexB.nalUnits u.bytes).flatMap (Plan.payloads p.budget)) packets := by
  obtain ⟨s, t, hpackets⟩ := p.packets_eq u
  rw [hpackets]
  exact conveys_issue u.timestamp _ p hc

theorem packets_ne_nil {p : Packetizer} {timestamp : UInt32} {nals : List Bytes} {packets : List Rtp.Packet}
    (h : Assembler.Conveys p.cipher timestamp p.nextSequence (nals.flatMap (Plan.payloads p.budget)) packets)
    (hne : nals ≠ []) : packets ≠ [] := by
  have hempty := Plan.isEmpty_flatMap_payloads p.budget_piece_pos p.budget_whole_pos nals
  rw [List.isEmpty_eq_false_iff.2 hne, List.isEmpty_eq_false_iff] at hempty
  rintro rfl
  exact hempty (List.length_eq_zero_iff.1 h.length.symm)

end Packetizer

namespace Assembler

/-- **The packets of a unit pass an assembler** that has no frame of its time and has not missed a packet before them:
the unit is due when the last of them has come, and each of them has been read. -/
theorem passed_packets {p : Packetizer} (hc : p.cipher.IsSound) {u : AccessUnit} (hne : AnnexB.nalUnits u.bytes ≠ [])
    (hcarry : ∀ nal ∈ AnnexB.nalUnits u.bytes, Nal.isCarriable nal = true) {a : Assembler}
    (ha : Reachable p.cipher a) (hnew : a.find? u.timestamp = none)
    (hnext : followsOn a.lastSequence p.nextSequence = true) :
    ∃ packets, (p.packets u).1.mapM Rtp.Packet.parse = .ok packets ∧
      Conveys p.cipher u.timestamp p.nextSequence ((AnnexB.nalUnits u.bytes).flatMap (Plan.payloads p.budget))
        packets ∧
      Passed a a.spared (packets.length - 1) (a.pending - a.spared.length) 0 (some u.delivered)
        (a.processAll packets).1 (a.processAll packets).2 := by
  obtain ⟨htidy, hcipher⟩ := ha.tidy
  obtain ⟨packets, hparse, hconveys⟩ := Packetizer.conveys_packets hc u
  have hcontent : a.heardAll packets (.intact [] none) = .intact (AnnexB.nalUnits u.bytes).reverse none := by
    rw [hconveys.heard a hcipher, FrameContent.hear_unit p.budget_piece_pos p.budget_whole_pos _ [] hcarry,
      List.append_nil]
  have hunit : (a.heardAll packets (.intact [] none)).unit? u.timestamp = some u.delivered := by
    rw [hcontent, FrameContent.unit?, FrameContent.finished?_intact hne]
    rfl
  have hread : a.unreadable packets = 0 := unreadable_eq_zero (by rw [hcontent]; exact FrameContent.noConfusion)
  have hpassed := passed_convoy htidy hnew hnext (Packetizer.packets_ne_nil hconveys hne) hconveys.convoy
  rw [hunit, hread] at hpassed
  exact ⟨packets, hparse, hconveys, hpassed⟩

/-- **Taking a unit apart and putting it together again** gives its normal form, whatever the assembler has seen
before: nothing comes out before the last packet, then the unit; no packet counts as malformed; and of the frames in the
making none is lost but, in a full table, one that was touched least recently. -/
theorem processAll_packets {p : Packetizer} (hc : p.cipher.IsSound) {u : AccessUnit}
    (hne : AnnexB.nalUnits u.bytes ≠ []) (hcarry : ∀ nal ∈ AnnexB.nalUnits u.bytes, Nal.isCarriable nal = true)
    {a : Assembler} (ha : Reachable p.cipher a) (hnew : a.find? u.timestamp = none)
    (hlast : a.lastSequence = none ∨ a.lastSequence = some (p.nextSequence - 1)) (hroom : a.pool.HasRoom) :
    ∃ packets, (p.packets u).1.mapM Rtp.Packet.parse = .ok packets ∧
      (a.processAll packets).2 = List.replicate (packets.length - 1) (.ok none) ++ [.ok (some u.delivered)] ∧
      (a.processAll packets).1.stats.malformed = a.stats.malformed ∧
      (a.processAll packets).1.stats.completed = a.stats.completed + 1 ∧
      (a.pending < a.limit →
        (a.processAll packets).1.frames = a.frames ∧ (a.processAll packets).1.stats.dropped = a.stats.dropped) ∧
      (a.limit ≤ a.pending → ∃ before f after, LeastRecent a.frames before f after ∧
        (a.processAll packets).1.frames = before ++ after ∧
        (a.processAll packets).1.stats.dropped = a.stats.dropped + 1) := by
  have hnext : followsOn a.lastSequence p.nextSequence = true := by
    rcases hlast with h | h
    · rw [h]
      rfl
    · rw [h]
      exact decide_eq_true (UInt16.sub_add_cancel p.nextSequence 1).symm
  obtain ⟨packets, hparse, -, hpassed⟩ := passed_packets hc hne hcarry ha hnew hnext
  obtain ⟨hanswers, -, hcompleted, hdropped⟩ := hpassed.of_due hroom
  refine ⟨packets, hparse, hanswers, hpassed.malformed, hcompleted, fun hfree => ?_, fun hfull => ?_⟩
  · rw [hpassed.frames, hdropped, spared_of_room hfree]
    exact ⟨rfl, by rw [pending, Nat.sub_self, Nat.add_zero]⟩
  · obtain ⟨before, f, after, hleast, hspared⟩ := ha.tidy.1.spared_of_full hfull
    refine ⟨before, f, after, hleast, hpassed.frames.trans hspared, ?_⟩
    rw [hdropped, hspared, pending, hleast.length, Nat.add_sub_cancel_left]

/-- An assembler with room for one frame, which has heard the first packet of a unit and nothing more of it. -/
def crowded : Assembler :=
  ((create .identity { limit := 4 } 1).process ⟨⟨false, 96, 0xffff, 90000, 1⟩, [0x41, 0x9a]⟩).1

/-- A packetizer that has to cut all but the shortest NAL units. -/
def narrow : Packetizer := { Packetizer.plain with mtu := 20, room := by decide }

/-- A unit that takes three packets of a narrow packetizer. -/
def lengthy : AccessUnit := .assembled 0 [[0x67, 0x42], [0x65, 0x88, 1, 2, 3, 4, 5, 6, 7]]

/-- The unit comes out, and the frame that was in the making has given way to it. -/
theorem processAll_packets_crowded : crowded.limit ≤ crowded.pending ∧
    ∃ packets, (narrow.packets lengthy).1.mapM Rtp.Packet.parse = .ok packets ∧
      (crowded.processAll packets).2 =
        List.replicate (packets.length - 1) (.ok none) ++ [.ok (some lengthy.delivered)] ∧
      (crowded.processAll packets).1.stats.dropped = crowded.stats.dropped + 1 := by
  refine ⟨by decide, ?_⟩
  obtain ⟨packets, hparse, hanswers, -, -, -, hfull⟩ :=
    processAll_packets (p := narrow) (u := lengthy) (a := crowded) Cipher.identity_isSound (by decide) (by decide)
      (.process _ (.create _ _)) (by decide) (.inr (by decide)) (by decide)
  obtain ⟨-, -, -, -, -, hdropped⟩ := hfull (by decide)
  exact ⟨packets, hparse, hanswers, hdropped⟩

end Assembler
end VideoTransport
