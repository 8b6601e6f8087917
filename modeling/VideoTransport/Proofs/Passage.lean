import VideoTransport.Proofs.RoundTrip
import VideoTransport.Proofs.Routing
import VideoTransport.Proofs.Sending
import VideoTransport.Proofs.Swapping
import VideoTransport.Proofs.Tally
/-!
# Passage — access units on an undisturbed way

A sink that takes everything is handed all packets of a unit, in order (`Sender.sendsAll_send`).  A receiver in which
nothing waits hands each of them to its assembler at once (`Receiver.InTurn.processMedia`); the last one finishes the
unit, and then nothing waits again.  So the two halves of a stream keep pace, unit after unit (`InPace.next`), whatever
reports they exchange in between.
-/
namespace VideoTransport

open Serial (nth)

/-! ## A sink that takes everything -/

/-- From states of some kind, a sink takes every datagram and goes on to a state of that kind. -/
def Sink.TakesAll {σ : Type} (sink : Sink σ) (Fit : σ → Prop) : Prop :=
  ∀ st, Fit st → ∀ datagram, (sink st datagram).1 = .ok () ∧ Fit (sink st datagram).2

/-- What handing over datagrams makes of a sink, whatever it says. -/
def Sink.filled {σ : Type} (sink : Sink σ) (st : σ) (datagrams : List Bytes) : σ :=
  datagrams.foldl (fun st datagram => (sink st datagram).2) st

namespace Sender

open Packetizer (Cursor)

variable {σ : Type} {sink : Sink σ} {Fit : σ → Prop}

theorem sendPackets_all (hsink : sink.TakesAll Fit) : ∀ (fuel : Nat) (c : Cursor) (s : Sender) {st : σ}, Fit st →
    (sendPackets sink fuel c s st).fault = none ∧
      (sendPackets sink fuel c s st).sink = sink.filled st (sendPackets sink fuel c s st).taken
  | 0, _, _, _, _ => ⟨rfl, rfl⟩
  | fuel + 1, c, s, st, h => by
    rcases hnext : s.packetizer.next c with ⟨_ | packet, p', c'⟩
    · rw [sendPackets_over hnext]
      exact ⟨rfl, rfl⟩
    · obtain ⟨htakes, hfit⟩ := hsink st h packet
      have hanswer : sink st packet = (.ok (), (sink st packet).2) := Prod.ext htakes rfl
      obtain ⟨hfault, hsame⟩ := sendPackets_all hsink fuel c'
        { s with packetizer := p', counters := s.counters.recordSent packet.length } hfit
      rw [sendPackets_accepted hnext hanswer]
      exact ⟨hfault, hsame⟩

/-- A unit has been sent as a whole: all its packets have been taken, in order, and counted. -/
structure SendsAll (sink : Sink σ) (s : Sender) (st : σ) (u : AccessUnit) (sent : Sent σ) : Prop where
  fault : sent.fault = none
  packets : s.packetizer.packets u = (sent.taken, sent.sender.packetizer)
  sink : sent.sink = sink.filled st sent.taken
  counts : Counts s.counters sent.sender.counters sent.taken 1

/-- **Into a sink that takes everything** a unit is sent as a whole. -/
theorem sendsAll_send (hsink : sink.TakesAll Fit) (s : Sender) {st : σ} (h : Fit st) (u : AccessUnit) :
    SendsAll sink s st u (s.send sink st u) := by
  obtain ⟨hfault, hfilled⟩ := sendPackets_all hsink ((s.packetizer.begin u).1.weight + 1) (s.packetizer.begin u).1
    { s with packetizer := (s.packetizer.begin u).2 } h
  generalize hr : sendPackets sink ((s.packetizer.begin u).1.weight + 1) (s.packetizer.begin u).1
    { s with packetizer := (s.packetizer.begin u).2 } st = r at hfault hfilled
  have hsend : s.send sink st u =
      { r with sender := { r.sender with counters := r.sender.counters.recordUnitSent } } := by
    unfold send
    simp only [hr, hfault]
  have hnone : (s.send sink st u).fault = none := by rw [hsend]; exact hfault
  have hends : Ends s u (s.offers sink st u) (s.send sink st u) := ends_send s st u
  have hall : ∀ o ∈ s.offers sink st u, o.isAccepted = true := by
    intro o ho
    by_contra hrefused
    have hfails := hends.fails_iff.2 ⟨o, ho, Bool.eq_false_iff.2 hrefused⟩
    rw [hnone] at hfails
    cases hfails
  have htaken : (s.send sink st u).taken = (s.offers sink st u).map Offer.datagram := by
    rw [hends.taken, accepted, List.filter_eq_self.2 hall]
  refine ⟨hnone, ?_, ?_, ?_⟩
  · rw [htaken]
    exact hends.finished hnone
  · rw [hsend]
    exact hfilled
  · have hcounts := @counts_send σ sink s st u
    rw [hnone, ← hends.taken] at hcounts
    exact hcounts

end Sender

/-! ## The datagrams of a unit -/

/-- What is read one by one is read from the first on. -/
theorem Rtp.mapM_parse_cons {datagram : Bytes} {datagrams : List Bytes} {packets : List Rtp.Packet}
    (h : (datagram :: datagrams).mapM Rtp.Packet.parse = .ok packets) : ∃ packet rest, packets = packet :: rest ∧
      Rtp.Packet.parse datagram = .ok packet ∧ datagrams.mapM Rtp.Packet.parse = .ok rest := by
  rw [List.mapM_cons] at h
  cases hfirst : Rtp.Packet.parse datagram with
  | error reason =>
    rw [hfirst] at h
    cases h
  | ok packet =>
    cases hrest : datagrams.mapM Rtp.Packet.parse with
    | error reason =>
      rw [hfirst, hrest] at h
      cases h
    | ok rest =>
      rw [hfirst, hrest] at h
      exact ⟨packet, rest, (Except.ok.inj h).symm, rfl, rfl⟩

namespace Packetizer

variable {payloadType : UInt8} {ssrc : UInt32} {mtu : Nat} {cipher : Cipher} {p : Packetizer}

/-- **The packets of a unit** do not look like reports, and leave the packetizer in use. -/
theorem IsInUse.packets (h : p.IsInUse payloadType ssrc mtu cipher) (u : AccessUnit) :
    (p.packets u).2.IsInUse payloadType ssrc mtu cipher ∧
      ∀ datagram ∈ (p.packets u).1, Rtcp.isReport datagram = false := by
  refine ⟨(h.begun u).pulled _ _, fun datagram hmem => ?_⟩
  obtain ⟨k, d, hemit⟩ := (pull_emits _ _ _).2 datagram hmem
  obtain ⟨_, -, -, -, hmedia⟩ := ((h.begun u).started (nth (p.begin u).2.nextSequence k)).emit hemit
  exact hmedia

/-- Each packet takes one number. -/
theorem nextSequence_packets {u : AccessUnit} {packets : List Rtp.Packet}
    (h : Assembler.Conveys p.cipher u.timestamp p.nextSequence
      ((AnnexB.nalUnits u.bytes).flatMap (Plan.payloads p.budget)) packets) :
    (p.packets u).2.nextSequence = nth p.nextSequence packets.length := by
  obtain ⟨s, t, hpackets⟩ := p.packets_eq u
  have hlength : (p.plan u).length = packets.length := by
    rw [plan, List.length_map, drafts, Plan.drafts, Plan.length_markLast, h.length]
  rw [hpackets, ← hlength]
  rfl

end Packetizer

/-! ## The last number -/

namespace Assembler

/-- **Behind a convoy** the next packet follows on the last one. -/
theorem followsOn_processAll : ∀ {packets : List Rtp.Packet} {a : Assembler} {timestamp : UInt32} {start : Serial},
    Rtp.IsConvoy timestamp start packets → packets ≠ [] →
      followsOn (a.processAll packets).1.lastSequence (nth start packets.length) = true
  | [], _, _, _, _, hne => absurd rfl hne
  | [p], a, _, start, ⟨_, hsequence, _⟩, _ => by
    rw [processAll, processAll, (process_keeps a p).2.2.2, hsequence]
    exact decide_eq_true rfl
  | p :: q :: rest, a, _, start, ⟨_, _, _, hrest⟩, _ => by
    have ih := followsOn_processAll (a := (a.process p).1) hrest (List.cons_ne_nil q rest)
    rw [show start + 1 = nth start 1 from rfl, Serial.nth_nth, Nat.add_comm] at ih
    exact ih

theorem Reachable.processAll {cipher : Cipher} : ∀ (packets : List Rtp.Packet) {a : Assembler}, Reachable cipher a →
    Reachable cipher (a.processAll packets).1
  | [], _, h => h
  | p :: rest, _, h => Reachable.processAll rest (.process p h)

end Assembler

/-! ## A packet whose turn it is -/

namespace Receiver

variable {r : Receiver} {s : Serial} {datagram : Bytes} {packet : Rtp.Packet} {due : Option AccessUnit}

/-- Nothing waits in the reorder buffer, and the packet with number `s` is the next to come out. -/
structure InTurn (s : Serial) (r : Receiver) : Prop where
  cursor : r.reorder.cursor.getD s = s
  pending : r.reorder.pending = []
  forced : r.reorder.forced = []
  capacity : 0 < r.reorder.capacity
  inStep : r.InStep

theorem InTurn.withPool (h : r.InTurn s) (pool : Pool) : (r.withPool pool).InTurn s :=
  ⟨h.cursor, h.pending, h.forced, h.capacity, h.inStep⟩

/-- **A packet whose turn it is** goes to the assembler at once, and what it finishes there is returned. -/
theorem InTurn.processMedia (h : r.InTurn s) (hparse : Rtp.Packet.parse datagram = .ok packet)
    (hs : packet.header.sequence = s) (hanswer : (r.assembler.process packet).2 = .ok due) (arrival : UInt32) :
    (r.processMedia datagram arrival).result = .ok due.toList ∧
      (r.processMedia datagram arrival).receiver.InTurn (s + 1) ∧
      (r.processMedia datagram arrival).receiver.assembler = (r.assembler.process packet).1 ∧
      Tallies r (r.processMedia datagram arrival).receiver
        { packets := 1
          octets := datagram.length
          readable := 1
          units := due.toList.length
          malformed := r.assembler.unreadable [packet]
          dropped := r.assembler.givenUp packet } := by
  have hturn : (r.reorder.add packet.header.sequence packet).popReady =
      ([packet], { r.reorder with cursor := some (s + 1), hasReleased := true }) := by
    rw [hs]
    exact Reorder.add_turn h.cursor h.pending h.forced h.capacity packet
  have hready : r.ready datagram = [packet] := by
    unfold ready
    rw [hparse]
    exact congrArg Prod.fst hturn
  have hbatch : assemble r.assembler [packet] = ⟨(r.assembler.process packet).1, due.toList, none, []⟩ := by
    rw [assemble_cons, hanswer]
    cases due <;> rfl
  have hhanded : handed r.assembler [packet] = [packet] := by
    rw [handed, hanswer]
    rfl
  obtain ⟨hshown, hresult, hreorder, -, hassembler⟩ := r.processMedia_of_parse arrival hparse (congrArg Prod.fst hturn)
    hbatch
  have hcounted := tallies_processMedia h.inStep datagram arrival
  have htally : r.tallyMedia datagram arrival =
      { packets := 1
        octets := datagram.length
        readable := 1
        units := due.toList.length
        malformed := r.assembler.unreadable [packet]
        dropped := r.assembler.givenUp packet } := by
    unfold tallyMedia
    simp only [hparse, hready, hhanded, hshown]
    rfl
  rw [congrArg Prod.snd hturn] at hreorder
  refine ⟨hresult, ⟨?_, ?_, ?_, ?_, hcounted.inStep⟩, hassembler, htally ▸ hcounted⟩ <;> rw [hreorder]
  · rfl
  · exact h.pending
  · exact h.forced
  · exact h.capacity

/-! ## The packets of a unit in turn -/

/-- What packets that bring one unit, the last of them finishing it, have made of a receiver to which the unit has been
given back. -/
structure Brought (r : Receiver) (s : Serial) (datagrams : List Bytes) (packets : List Rtp.Packet) (unit : AccessUnit)
    (r' : Receiver) : Prop where
  inTurn : r'.InTurn (nth s packets.length)
  assembler : r'.assembler =
    { (r.assembler.processAll packets).1 with pool := (unit.release (r.assembler.processAll packets).1.pool).2 }
  counted : ∃ readable malformed dropped, readable ≠ 0 ∧ Tallies r r'
    { packets := datagrams.length, octets := (datagrams.map List.length).sum, readable, units := 1, malformed, dropped }

/-- A packet that finishes nothing goes before. -/
theorem Brought.after {r r' r'' : Receiver} {datagrams : List Bytes} {packets : List Rtp.Packet} {unit : AccessUnit}
    (h : Brought r' (s + 1) datagrams packets unit r'') (hassembler : r'.assembler = (r.assembler.process packet).1)
    {malformed dropped : Nat} (hfirst : Tallies r r'
      { packets := 1, octets := datagram.length, readable := 1, units := 0, malformed, dropped }) :
    Brought r s (datagram :: datagrams) (packet :: packets) unit r'' := by
  obtain ⟨hturn, hlater, readable, later, others, -, hrest⟩ := h
  rw [hassembler] at hlater
  rw [show s + 1 = nth s 1 from rfl, Serial.nth_nth, Nat.add_comm] at hturn
  refine ⟨hturn, hlater, 1 + readable, malformed + later, dropped + others, by omega, ?_⟩
  have hboth := hfirst.trans hrest
  rw [List.length_cons, Nat.add_comm, List.map_cons, List.sum_cons]
  exact hboth

end Receiver

/-! ## Sender and receiver -/

/-- Both halves of a stream have come equally far: the receiver waits for the packet that the sender makes next, holds
on to nothing, and has counted what the sender has counted. -/
structure InPace (cipher : Cipher) (s : Sender) (r : Receiver) : Prop where
  inUse : ∃ payloadType ssrc mtu, s.packetizer.IsInUse payloadType ssrc mtu cipher
  inTurn : r.InTurn s.packetizer.nextSequence
  reachable : Assembler.Reachable cipher r.assembler
  frames : r.assembler.frames = []
  follows : Assembler.followsOn r.assembler.lastSequence s.packetizer.nextSequence = true
  room : r.pool.HasRoom
  dropped : r.assembler.stats.dropped = 0
  framesDropped : r.counters.framesDropped = 0
  packets : s.counters.packetsSent = r.counters.packetsReceived
  bytes : s.counters.bytesSent = r.counters.bytesReceived
  units : s.counters.unitsSent = r.counters.unitsReceived

/-- **The packets of one more unit** finish it at a receiver that has kept pace, and when they have been taken the
receiver has kept pace again. -/
theorem InPace.next {cipher : Cipher} {s : Sender} {r : Receiver} (h : InPace cipher s r) (hc : cipher.IsSound)
    {u : AccessUnit} (hne : AnnexB.nalUnits u.bytes ≠ [])
    (hcarry : ∀ nal ∈ AnnexB.nalUnits u.bytes, Nal.isCarriable nal = true) {σ : Type} {sink : Sink σ} {st : σ}
    {sent : Sender.Sent σ} (hsent : Sender.SendsAll sink s st u sent) :
    ∃ packets, sent.taken.mapM Rtp.Packet.parse = .ok packets ∧
      (∀ datagram ∈ sent.taken, Rtcp.isReport datagram = false) ∧
      Rtp.IsConvoy u.timestamp s.packetizer.nextSequence packets ∧
      (r.assembler.processAll packets).2 = List.replicate (packets.length - 1) (.ok none) ++ [.ok (some u.delivered)] ∧
      ∀ r', Receiver.Brought r s.packetizer.nextSequence sent.taken packets u.delivered r' →
        InPace cipher sent.sender r' := by
  obtain ⟨payloadType, ssrc, mtu, huse⟩ := h.inUse
  obtain rfl := huse.keeps.1.cipher
  have hnew : r.assembler.find? u.timestamp = none :=
    Assembler.find?_eq_none fun f hf => by rw [h.frames] at hf; cases hf
  obtain ⟨packets, hparse, hconveys, hpassed⟩ := Assembler.passed_packets hc hne hcarry h.reachable hnew h.follows
  obtain ⟨hanswers, hpool, -, hdropped⟩ := hpassed.of_due h.room
  have hspared : r.assembler.spared = [] := List.sublist_nil.1 (h.frames ▸ r.assembler.spared_sublist)
  have hnext := Packetizer.nextSequence_packets hconveys
  obtain ⟨huse', hmedia⟩ := huse.packets u
  rw [hsent.packets] at hparse hnext huse' hmedia
  refine ⟨packets, hparse, hmedia, hconveys.convoy, hanswers, fun r' hbrought => ?_⟩
  obtain ⟨hturn, hassembler, readable, malformed, dropped, hreadable, hcounted⟩ := hbrought
  have hnone : r'.assembler.stats.dropped = 0 := by
    rw [hassembler]
    show (r.assembler.processAll packets).1.stats.dropped = 0
    rw [hdropped, h.dropped, hspared, Assembler.pending, h.frames]
    rfl
  -- The buffer that was lent for the unit has come back.
  have hgiven : r'.pool = r.pool.lend.release u.delivered.bytes := by
    rw [Receiver.pool, hassembler]
    show (u.delivered.release (r.assembler.processAll packets).1.pool).2 = _
    rw [hpool, AccessUnit.release_of_unreleased rfl]
    rfl
  refine ⟨⟨payloadType, ssrc, mtu, huse'⟩, hnext ▸ hturn, ?_, ?_, ?_, ?_, hnone, ?_, ?_, ?_, ?_⟩
  · rw [hassembler]
    exact .withPool _ (.processAll packets h.reachable)
  · rw [hassembler]
    exact hpassed.frames.trans hspared
  · rw [hassembler, hnext]
    exact Assembler.followsOn_processAll hconveys.convoy (Packetizer.packets_ne_nil hconveys hne)
  · rw [hgiven]
    exact h.room
  · rw [hcounted.framesDropped, if_neg hreadable, hnone]
    rfl
  · rw [hsent.counts.packets, hcounted.packets, h.packets]
  · rw [hsent.counts.bytes, hcounted.octets, h.bytes]
  · rw [hsent.counts.units, hcounted.units, h.units]

/-! ## Reports in between -/

namespace InPace

variable {cipher : Cipher} {s s' : Sender} {r r' : Receiver}

theorem of_sender (h : InPace cipher s r) (hpacketizer : s'.packetizer = s.packetizer)
    (hcounts : Sender.Counts s.counters s'.counters [] 0) : InPace cipher s' r where
  inUse := hpacketizer ▸ h.inUse
  inTurn := hpacketizer ▸ h.inTurn
  reachable := h.reachable
  frames := h.frames
  follows := hpacketizer ▸ h.follows
  room := h.room
  dropped := h.dropped
  framesDropped := h.framesDropped
  packets := by rw [hcounts.packets, ← h.packets]; exact UInt64.add_zero _
  bytes := by rw [hcounts.bytes, ← h.bytes]; exact UInt64.add_zero _
  units := by rw [hcounts.units, ← h.units]; exact UInt64.add_zero _

theorem of_receiver (h : InPace cipher s r) (hreorder : r'.reorder = r.reorder)
    (hassembler : r'.assembler = r.assembler) {malformed : Nat} (hcounted : Receiver.Tallies r r' { malformed }) :
    InPace cipher s r' where
  inUse := h.inUse
  inTurn := ⟨hreorder ▸ h.inTurn.cursor, hreorder ▸ h.inTurn.pending, hreorder ▸ h.inTurn.forced,
    hreorder ▸ h.inTurn.capacity, hcounted.inStep⟩
  reachable := hassembler ▸ h.reachable
  frames := hassembler ▸ h.frames
  follows := hassembler ▸ h.follows
  room := by rw [Receiver.pool, hassembler]; exact h.room
  dropped := hassembler ▸ h.dropped
  framesDropped := hcounted.framesDropped.trans h.framesDropped
  packets := h.packets.trans (by rw [hcounted.packets]; exact (UInt64.add_zero _).symm)
  bytes := h.bytes.trans (by rw [hcounted.octets]; exact (UInt64.add_zero _).symm)
  units := h.units.trans (by rw [hcounted.units]; exact (UInt64.add_zero _).symm)

theorem sender_report (h : InPace cipher s r) (time : Rtcp.WallTime) (rtpTimestamp : UInt32) :
    InPace cipher (s.buildReport time rtpTimestamp).2 r :=
  h.of_sender rfl (Sender.counts_nothing rfl rfl rfl)

theorem sender_hears (h : InPace cipher s r) (data : Bytes) (now : Rtcp.WallTime) :
    InPace cipher (s.processReport data now).sender r := by
  refine h.of_sender ?_ (Sender.counts_hear s data now)
  unfold Sender.processReport
  repeat' split
  all_goals rfl

theorem receiver_report (h : InPace cipher s r) (reporter : UInt32) (now : Nat) :
    InPace cipher s (r.buildReport reporter now).2 := by
  refine h.of_receiver ?_ ?_ (Receiver.tallies_buildReport h.inTurn.inStep reporter now)
  all_goals
    unfold Receiver.buildReport
    split <;> rfl

theorem receiver_hears (h : InPace cipher s r) (data : Bytes) (now : Nat) :
    InPace cipher s (r.processReport data now).2 := by
  obtain ⟨malformed, htally⟩ : ∃ malformed, Receiver.tallyReport data = { malformed } := by
    unfold Receiver.tallyReport
    split
    · exact ⟨1, rfl⟩
    · exact ⟨0, rfl⟩
  refine h.of_receiver ?_ ?_ (htally ▸ Receiver.tallies_processReport h.inTurn.inStep data now)
  all_goals
    unfold Receiver.processReport
    split <;> rfl

end InPace
end VideoTransport
