import VideoTransport.Inbound.Receiver
import VideoTransport.Proofs.Compound
import VideoTransport.Proofs.Issue
import VideoTransport.Proofs.Datagram
/-!
# Routing — media and reports over one line

Media packets and reports arrive on the same line and are told apart by their second octet, in which a media packet
has its marker and its payload type.  A written media packet is taken for a report exactly if its marker is set and its
type is one of five (`Rtcp.isReport_media`), and these are the types that no packetizer is created with.  So whatever a
packetizer emits goes the way of media and reads there as it was written, and whatever reads as a report goes the way
of reports (`Receiver.routes_soundly`).
-/
namespace VideoTransport

/-! ## The line between the two -/

namespace Rtcp

/-- **A media packet looks like a report** if its marker is set and its type collides, and in no other case. -/
theorem isReport_media (h : Rtp.Header) (payload : Bytes) :
    isReport (h.write ++ payload) = (h.marker && collides (h.payloadType &&& 0x7f)) := by
  -- the octet has a bit for the marker and seven for the type: twice 256 cases
  have hall : ∀ marker : Bool, ∀ i : Fin 256,
      let octet : UInt8 := (if marker then 0x80 else 0) ||| (UInt8.ofFin i &&& 0x7f)
      (senderReportType ≤ octet && octet ≤ lastReportType) = (marker && collides (UInt8.ofFin i &&& 0x7f)) := by
    decide +kernel
  have hwritten : isReport (h.write ++ payload) =
      (decide ((0x80 : UInt8) >>> 6 = 2) && senderReportType ≤ h.markerOctet && h.markerOctet ≤ lastReportType) := rfl
  rw [hwritten, show decide ((0x80 : UInt8) >>> 6 = 2) = true by decide, Bool.true_and]
  exact hall h.marker h.payloadType.toFin

/-- **What reads as a report** is told from media. -/
theorem isReport_of_parse {data : Bytes} {report : Report} (h : Report.parse data = .ok report) :
    isReport data = true := by
  unfold Report.parse at h
  split at h
  · cases h
  · split at h
    · rename_i b0 kind high low rest _
      split at h
      · cases h
      · rename_i hversion
        have hkind : kind = senderReportType ∨ kind = receiverReportType := by
          by_contra hother
          rw [not_or] at hother
          simp only [hother.1, hother.2, if_false] at h
          split at h <;> cases h
        rw [isReport, decide_eq_true (not_not.1 hversion)]
        rcases hkind with rfl | rfl <;> rfl
    · cases h

end Rtcp

/-! ## What packetizers emit -/

namespace Packetizer

/-- A packetizer that was created with these settings and has been used since: the first number may have been set,
access units begun, and packets asked for, as many or as few as one likes. -/
inductive IsInUse (payloadType : UInt8) (ssrc : UInt32) (mtu : Nat) (cipher : Cipher) : Packetizer → Prop
  | created {p : Packetizer} (h : create payloadType ssrc mtu cipher = .ok p) : IsInUse payloadType ssrc mtu cipher p
  | started {p : Packetizer} (start : Serial) (h : IsInUse payloadType ssrc mtu cipher p) :
    IsInUse payloadType ssrc mtu cipher (p.startAt start)
  | begun {p : Packetizer} (u : AccessUnit) (h : IsInUse payloadType ssrc mtu cipher p) :
    IsInUse payloadType ssrc mtu cipher (p.begin u).2
  | pulled {p : Packetizer} (n : Nat) (c : Cursor) (h : IsInUse payloadType ssrc mtu cipher p) :
    IsInUse payloadType ssrc mtu cipher (p.pull n c).2.1

variable {payloadType : UInt8} {ssrc : UInt32} {mtu : Nat} {cipher : Cipher} {p : Packetizer}

theorem Cursor.step_timestamp {b : Budget} {c c' : Cursor} {d : Draft} (h : c.step b = some (d, c')) :
    c'.timestamp = c.timestamp := by
  have hpiece : ∀ header isFirst body later, (c.stepPiece b header isFirst body later).2.timestamp = c.timestamp := by
    intro header isFirst body later
    unfold stepPiece
    dsimp only
    split <;> rfl
  unfold step at h
  split at h
  · cases h
  · split at h
    · rw [← congrArg (·.2.timestamp) (Option.some.inj h)]
      exact hpiece _ _ _ _
    · split at h
      · cases h
        rfl
      · rw [← congrArg (·.2.timestamp) (Option.some.inj h)]
        exact hpiece _ _ _ _

/-- A datagram that `p` comes to emit at a media time, from some draft and after so many numbers. -/
def Emits (p : Packetizer) (timestamp : UInt32) (datagram : Bytes) : Prop :=
  ∃ k d, ((p.startAt (Serial.nth p.nextSequence k)).emit timestamp d).1 = some datagram

theorem Emits.later {timestamp : UInt32} {datagram : Bytes} {k : Nat}
    (h : (p.startAt (Serial.nth p.nextSequence k)).Emits timestamp datagram) : p.Emits timestamp datagram := by
  obtain ⟨j, d, hemit⟩ := h
  refine ⟨k + j, d, ?_⟩
  rw [← Serial.nth_nth]
  exact hemit

/-- **The search for the next packet** goes on with the numbers and comes up with what is emitted. -/
theorem next_emits (p : Packetizer) (c : Cursor) :
    (∃ k, (p.next c).2.1 = p.startAt (Serial.nth p.nextSequence k)) ∧ (p.next c).2.2.timestamp = c.timestamp ∧
      ∀ datagram, (p.next c).1 = some datagram → p.Emits c.timestamp datagram := by
  have hself : p = p.startAt (Serial.nth p.nextSequence 0) := by rw [Serial.nth_zero]; rfl
  cases hs : c.step p.budget with
  | none =>
    rw [next_of_none hs]
    exact ⟨⟨0, hself⟩, rfl, fun _ h => by cases h⟩
  | some stepped =>
    obtain ⟨d, c'⟩ := stepped
    have hweight := Cursor.step_weight p.budget_piece_pos hs
    rw [next_of_some hs, ← Cursor.step_timestamp hs]
    cases he : (p.emit c'.timestamp d).1 with
    | some packet =>
      refine ⟨⟨1, rfl⟩, rfl, fun datagram h => ⟨0, d, ?_⟩⟩
      rw [← hself, he]
      exact h
    | none =>
      obtain ⟨⟨k, hk⟩, htime, hemits⟩ := next_emits (p.startAt (p.nextSequence + 1)) c'
      refine ⟨⟨1 + k, hk.trans ?_⟩, htime, fun datagram h => Emits.later (k := 1) (hemits datagram h)⟩
      rw [← Serial.nth_nth]
      rfl
termination_by c.weight

/-- **Whatever is pulled is emitted**, and pulling only goes on with the numbers. -/
theorem pull_emits : ∀ (n : Nat) (p : Packetizer) (c : Cursor),
    (∃ k, (p.pull n c).2.1 = p.startAt (Serial.nth p.nextSequence k)) ∧
      ∀ datagram ∈ (p.pull n c).1, p.Emits c.timestamp datagram
  | 0, p, c => ⟨⟨0, by rw [Serial.nth_zero]; rfl⟩, fun _ h => absurd h List.not_mem_nil⟩
  | n + 1, p, c => by
    obtain ⟨⟨k, hk⟩, htime, hemits⟩ := next_emits p c
    rw [pull]
    split
    · rename_i p' c' hnext
      rw [hnext] at hk
      exact ⟨⟨k, hk⟩, fun _ h => absurd h List.not_mem_nil⟩
    · rename_i packet p' c' hnext
      rw [hnext] at hk htime hemits
      obtain rfl : p' = p.startAt (Serial.nth p.nextSequence k) := hk
      obtain ⟨⟨j, hj⟩, hrest⟩ := pull_emits n (p.startAt (Serial.nth p.nextSequence k)) c'
      refine ⟨⟨k + j, hj.trans ?_⟩, List.forall_mem_cons.2 ⟨hemits packet rfl, fun datagram h => ?_⟩⟩
      · rw [← Serial.nth_nth]
        rfl
      · exact (htime ▸ hrest datagram h).later

/-- What does not change with use. -/
structure Keeps (payloadType : UInt8) (ssrc : UInt32) (mtu : Nat) (cipher : Cipher) (p : Packetizer) : Prop where
  payloadType : p.payloadType = payloadType
  ssrc : p.ssrc = ssrc
  mtu : p.mtu = mtu
  cipher : p.cipher = cipher

theorem Keeps.startAt (h : p.Keeps payloadType ssrc mtu cipher) (start : Serial) :
    (p.startAt start).Keeps payloadType ssrc mtu cipher := ⟨h.payloadType, h.ssrc, h.mtu, h.cipher⟩

theorem Keeps.withSets (h : p.Keeps payloadType ssrc mtu cipher) (s t : Option Bytes) :
    (p.withSets s t).Keeps payloadType ssrc mtu cipher := ⟨h.payloadType, h.ssrc, h.mtu, h.cipher⟩

/-- **A packetizer keeps to what it was created with**: its type fits into seven bits and is none of those that look
like reports. -/
theorem IsInUse.keeps (h : p.IsInUse payloadType ssrc mtu cipher) :
    p.Keeps payloadType ssrc mtu cipher ∧ payloadType < 0x80 ∧ Rtcp.collides payloadType = false := by
  induction h with
  | created h =>
    unfold create at h
    split at h
    · split at h
      · cases h
      · rename_i hwide
        split at h
        · cases h
        · rename_i hcollides
          cases h
          refine ⟨⟨rfl, rfl, rfl, rfl⟩, ?_, Bool.eq_false_iff.2 hcollides⟩
          rw [UInt8.lt_iff_toNat_lt] at hwide ⊢
          exact Nat.lt_succ_of_le (Nat.not_lt.1 hwide)
    · cases h
  | started start _ ih => exact ⟨ih.1.startAt start, ih.2⟩
  | @begun p u _ ih =>
    obtain ⟨s, t, hsets⟩ := foldl_capture (AnnexB.nalUnits u.bytes) p
    rw [show (p.begin u).2 = p.withSets s t from hsets]
    exact ⟨ih.1.withSets s t, ih.2⟩
  | @pulled p n c _ ih =>
    obtain ⟨⟨k, hk⟩, -⟩ := pull_emits n p c
    rw [hk]
    exact ⟨ih.1.startAt _, ih.2⟩

/-- **One packet** of a packetizer in use is the header that was meant and the encrypted payload; it reads so, and it
does not look like a report. -/
theorem IsInUse.emit (h : p.IsInUse payloadType ssrc mtu cipher) {timestamp : UInt32} {d : Draft} {datagram : Bytes}
    (hemit : (p.emit timestamp d).1 = some datagram) : ∃ cover,
      let header : Rtp.Header := ⟨d.marker, payloadType, p.nextSequence, timestamp, ssrc⟩
      cipher.encrypt header.packetMeta d.payload = .ok cover ∧ datagram = header.write ++ cover ∧
        Rtp.Packet.parse datagram = .ok ⟨header, cover⟩ ∧ Rtcp.isReport datagram = false := by
  obtain ⟨⟨rfl, rfl, rfl, rfl⟩, hfits, hcollides⟩ := h.keeps
  have hmask := Rtp.and_mask_of_lt hfits
  unfold Packetizer.emit at hemit
  dsimp only at hemit
  split at hemit
  · cases hemit
  · rename_i cover hencrypt
    split at hemit
    · cases hemit
    · obtain rfl := Option.some.inj hemit
      refine ⟨cover, hencrypt, rfl, ?_, ?_⟩
      · rw [Rtp.Packet.parse_write, hmask]
        rfl
      · rw [Rtcp.isReport_media, hmask, hcollides, Bool.and_false]

end Packetizer

/-! ## Routes -/

namespace Receiver

/-- **Media and reports each go their own way.**  Take a packetizer created with any settings that it accepts, and used
in any way since.  Each datagram that it emits, with the marker or without, is a header and an encrypted payload and
reads as these two, and every receiver treats it as media.  And every datagram that reads as a report, so each report
that is written here with anything behind it, every receiver treats as a report. -/
theorem routes_soundly {payloadType : UInt8} {ssrc : UInt32} {mtu : Nat} {cipher : Cipher} {p : Packetizer}
    (h : p.IsInUse payloadType ssrc mtu cipher) (r : Receiver) (arrival : UInt32) (now : Nat) :
    (∀ n c, ∀ datagram ∈ (p.pull n c).1, ∃ sequence d cover,
      let header : Rtp.Header := ⟨d.marker, payloadType, sequence, c.timestamp, ssrc⟩
      ((p.startAt sequence).emit c.timestamp d).1 = some datagram ∧
        cipher.encrypt header.packetMeta d.payload = .ok cover ∧ datagram = header.write ++ cover ∧
        Rtp.Packet.parse datagram = .ok ⟨header, cover⟩ ∧
        r.processDatagram datagram arrival now = r.processMedia datagram arrival) ∧
    (∀ datagram report, Rtcp.Report.parse datagram = .ok report →
      r.processDatagram datagram arrival now =
        { receiver := (r.processReport datagram now).2, shown := [], result := .ok [],
          heeded := isHeeded (some report) }) ∧
    ∀ (report : Rtcp.Report) (rest : Bytes), Rtcp.Report.parse (report.write ++ rest) = .ok report.carried ∧
      r.processDatagram (report.write ++ rest) arrival now =
        { receiver := (r.processReport (report.write ++ rest) now).2, shown := [], result := .ok [],
          heeded := isHeeded (some report.carried) } := by
  have hreports : ∀ datagram report, Rtcp.Report.parse datagram = .ok report →
      r.processDatagram datagram arrival now =
        { receiver := (r.processReport datagram now).2, shown := [], result := .ok [],
          heeded := isHeeded (some report) } := by
    intro datagram report hparse
    have hheard : (r.processReport datagram now).1 = some report := by
      unfold processReport
      rw [hparse]
      cases report <;> rfl
    unfold processDatagram
    rw [if_pos (Rtcp.isReport_of_parse hparse), ← hheard]
  refine ⟨fun n c datagram hmem => ?_, hreports, fun report rest => ?_⟩
  · obtain ⟨k, d, hemit⟩ := (Packetizer.pull_emits n p c).2 datagram hmem
    obtain ⟨cover, hencrypt, hwritten, hparse, hmedia⟩ := (h.started (Serial.nth p.nextSequence k)).emit hemit
    refine ⟨_, d, cover, hemit, hencrypt, hwritten, hparse, ?_⟩
    unfold processDatagram
    rw [if_neg (Bool.eq_false_iff.1 hmedia)]
  · exact ⟨report.parse_write rest, hreports _ _ (report.parse_write rest)⟩

/-- A packetizer with the highest type and the highest source, and with the least room that is accepted. -/
def narrowest : Packetizer where
  payloadType := 0x7f
  ssrc := 0xffffffff
  mtu := 15
  cipher := .xor 0x5a
  room := by decide

/-- Its packet with the marker has the octet 0xff, which is beyond those of reports. -/
theorem routes_soundly_narrowest :
    let datagram : Bytes := [0x80, 0xff, 0, 0, 0, 0, 0, 9, 0xff, 0xff, 0xff, 0xff, 0x1b]
    narrowest.IsInUse 0x7f 0xffffffff 15 (.xor 0x5a) ∧
      (narrowest.pull 1 { timestamp := 9, nals := [[0x41]] }).1 = [datagram] ∧
      ∀ (r : Receiver) (arrival : UInt32) (now : Nat),
        r.processDatagram datagram arrival now = r.processMedia datagram arrival := by
  intro datagram
  have hin : narrowest.IsInUse 0x7f 0xffffffff 15 (.xor 0x5a) := .created rfl
  have hpull : (narrowest.pull 1 { timestamp := 9, nals := [[0x41]] }).1 = [datagram] := by
    rw [Packetizer.pull, Packetizer.next_of_some rfl]
    rfl
  refine ⟨hin, hpull, fun r arrival now => ?_⟩
  obtain ⟨_, _, _, -, -, -, -, hroute⟩ := (routes_soundly hin r arrival now).1 1 { timestamp := 9, nals := [[0x41]] }
    datagram (by rw [hpull]; exact List.mem_singleton.2 rfl)
  exact hroute

end Receiver
end VideoTransport
