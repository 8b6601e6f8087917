import Mathlib.Algebra.Group.Nat.Defs
import VideoTransport.Proofs.Consumer
import VideoTransport.Proofs.Stages
/-!
# Tally — what the counters say since they were reset

What a receiver counts happens at its calls: datagrams come, units come out, packets cannot be read, frames are given
up.  A tally says how often, from what each call finds and does, without a look at the counters (`Consumer.tally`).
After a reset the counters say what has been tallied since, but for the frames given up: those are copied from the
assembler, which counts from the beginning (`Consumer.counts_since_reset`).
-/
namespace VideoTransport

/-! ## Frames given up -/

namespace Assembler

def givenUpAll : Assembler → List Rtp.Packet → Nat
  | _, [] => 0
  | a, p :: rest => a.givenUp p + (a.process p).1.givenUpAll rest

theorem unreadable_congr {a b : Assembler} (h : b.cipher = a.cipher) (packets : List Rtp.Packet) :
    b.unreadable packets = a.unreadable packets := by
  have hopen (p : Rtp.Packet) : b.open? p = a.open? p := by rw [open?, open?, h]
  simp only [unreadable, hopen]

theorem processAll_stats : ∀ (packets : List Rtp.Packet) (a : Assembler),
    (a.processAll packets).1.stats.dropped = a.stats.dropped + a.givenUpAll packets ∧
      (a.processAll packets).1.stats.malformed = a.stats.malformed + a.unreadable packets
  | [], _ => ⟨rfl, rfl⟩
  | p :: rest, a => by
    obtain ⟨hcipher, hdropped, hmalformed⟩ := a.process_stats p
    obtain ⟨ihdropped, ihmalformed⟩ := processAll_stats rest (a.process p).1
    rw [processAll, givenUpAll]
    refine ⟨?_, ?_⟩
    · rw [ihdropped, hdropped, Nat.add_assoc]
    · rw [ihmalformed, hmalformed, unreadable_congr hcipher, Nat.add_assoc, unreadable, unreadable,
        ← List.countP_append]
      rfl

end Assembler

/-! ## One call -/

/-- How often the things have happened that a receiver counts. -/
structure Tally where
  /-- Media datagrams have come, -/
  packets : Nat := 0
  /-- with so many octets together, -/
  octets : Nat := 0
  /-- and so many of them read as packets. -/
  readable : Nat := 0
  /-- Access units have come out. -/
  units : Nat := 0
  /-- Datagrams did not read as packets or reports, or payloads could not be decrypted or read. -/
  malformed : Nat := 0
  /-- Frames have been given up. -/
  dropped : Nat := 0
  deriving DecidableEq, Repr

instance : Add Tally where
  add t u :=
    { packets := t.packets + u.packets
      octets := t.octets + u.octets
      readable := t.readable + u.readable
      units := t.units + u.units
      malformed := t.malformed + u.malformed
      dropped := t.dropped + u.dropped }

namespace Receiver

def tallyMedia (r : Receiver) (datagram : Bytes) (arrival : UInt32) : Tally :=
  match Rtp.Packet.parse datagram with
  | .error _ => { packets := 1, octets := datagram.length, malformed := 1 }
  | .ok _ =>
    let taken := handed r.assembler (r.ready datagram)
    { packets := 1
      octets := datagram.length
      readable := 1
      units := (r.processMedia datagram arrival).shown.length
      malformed := r.assembler.unreadable taken
      dropped := r.assembler.givenUpAll taken }

def tallyReport (data : Bytes) : Tally :=
  match Rtcp.Report.parse data with
  | .error _ => { malformed := 1 }
  | .ok _ => {}

def tallyInput (r : Receiver) : Input → Tally
  | .media datagram arrival => r.tallyMedia datagram arrival
  | .any datagram arrival _ => if Rtcp.isReport datagram then tallyReport datagram else r.tallyMedia datagram arrival

/-- Between calls a receiver has counted all unreadable payloads that its assembler has met. -/
def InStep (r : Receiver) : Prop := r.malformedSeen = r.assembler.stats.malformed

/-- The counters of a receiver have gone on by a tally. -/
structure Tallies (r r' : Receiver) (t : Tally) : Prop where
  packets : r'.counters.packetsReceived = r.counters.packetsReceived + UInt64.ofNat t.packets
  octets : r'.counters.bytesReceived = r.counters.bytesReceived + UInt64.ofNat t.octets
  units : r'.counters.unitsReceived = r.counters.unitsReceived + UInt64.ofNat t.units
  malformed : r'.counters.malformedPackets = r.counters.malformedPackets + UInt64.ofNat t.malformed
  /-- The frames given up are copied from the assembler, when a packet has come. -/
  framesDropped : r'.counters.framesDropped =
    if t.readable = 0 then r.counters.framesDropped else UInt64.ofNat r'.assembler.stats.dropped
  dropped : r'.assembler.stats.dropped = r.assembler.stats.dropped + t.dropped
  dropped_eq_zero : t.readable = 0 → t.dropped = 0
  inStep : r'.InStep

variable {r r' r'' : Receiver} {t u : Tally}

theorem tallies_nothing (h : r.InStep) (hcounters : r'.counters = r.counters)
    (hseen : r'.malformedSeen = r.malformedSeen) (hstats : r'.assembler.stats = r.assembler.stats) :
    Tallies r r' {} where
  packets := by rw [hcounters]; exact (UInt64.add_zero _).symm
  octets := by rw [hcounters]; exact (UInt64.add_zero _).symm
  units := by rw [hcounters]; exact (UInt64.add_zero _).symm
  malformed := by rw [hcounters]; exact (UInt64.add_zero _).symm
  framesDropped := by rw [hcounters]; rfl
  dropped := by rw [hstats]; rfl
  dropped_eq_zero _ := rfl
  inStep := hseen.trans (h.trans (by rw [hstats]))

theorem Tallies.trans (h : Tallies r r' t) (h' : Tallies r' r'' u) : Tallies r r'' (t + u) where
  packets := by rw [h'.packets, h.packets, UInt64.add_assoc, ← UInt64.ofNat_add]; rfl
  octets := by rw [h'.octets, h.octets, UInt64.add_assoc, ← UInt64.ofNat_add]; rfl
  units := by rw [h'.units, h.units, UInt64.add_assoc, ← UInt64.ofNat_add]; rfl
  malformed := by rw [h'.malformed, h.malformed, UInt64.add_assoc, ← UInt64.ofNat_add]; rfl
  framesDropped := by
    show _ = if t.readable + u.readable = 0 then _ else _
    by_cases hu : u.readable = 0
    · rw [h'.framesDropped, if_pos hu, h.framesDropped, hu, Nat.add_zero, h'.dropped, h'.dropped_eq_zero hu,
        Nat.add_zero]
    · rw [h'.framesDropped, if_neg hu, if_neg (by omega)]
  dropped := by rw [h'.dropped, h.dropped, Nat.add_assoc]; rfl
  dropped_eq_zero hnone := by
    obtain ⟨ht, hu⟩ := Nat.add_eq_zero_iff.1 (show t.readable + u.readable = 0 from hnone)
    show t.dropped + u.dropped = 0
    rw [h.dropped_eq_zero ht, h'.dropped_eq_zero hu]
  inStep := h'.inStep

theorem Tallies.withPool (h : Tallies r r' t) (pool : Pool) : Tallies r (r'.withPool pool) t :=
  ⟨h.packets, h.octets, h.units, h.malformed, h.framesDropped, h.dropped, h.dropped_eq_zero, h.inStep⟩

theorem counters_adopt (r : Receiver) (a : Assembler) (completed : Nat) :
    (r.adopt a completed).counters =
      { r.counters with
        framesDropped := UInt64.ofNat a.stats.dropped
        malformedPackets := r.counters.malformedPackets + UInt64.ofNat (a.stats.malformed - r.malformedSeen)
        unitsReceived := r.counters.unitsReceived + UInt64.ofNat completed } := repeat_recordUnitReceived _ _

/-- A media datagram that reads as a packet is counted, then what the assembler has made of the batch. -/
theorem processMedia_adopts (r : Receiver) {datagram : Bytes} (arrival : UInt32) {packet : Rtp.Packet}
    (hp : Rtp.Packet.parse datagram = .ok packet) {batch : Batch}
    (hbatch : assemble r.assembler (r.ready datagram) = batch) :
    ∃ (noted : Receiver) (pool : Pool) (lost : Int) (jitter : UInt64),
    noted.malformedSeen = r.malformedSeen ∧
      noted.counters = (r.counters.recordReceived datagram.length).setReception lost jitter ∧
      (r.processMedia datagram arrival).receiver =
        (noted.adopt batch.assembler batch.completed.length).withPool pool := by
  have hready : r.ready datagram = (r.reorder.add packet.header.sequence packet).popReady.1 := by
    unfold ready
    rw [hp]
  rw [hready] at hbatch
  unfold processMedia
  simp only [hp]
  generalize hnoted :
    ({ r with counters := r.counters.recordReceived datagram.length } : Receiver).note packet.header arrival = noted
  have hreorder : noted.reorder = r.reorder := by rw [← hnoted]; rfl
  have hassembler : noted.assembler = r.assembler := by rw [← hnoted]; rfl
  have hseen : noted.malformedSeen = r.malformedSeen := by rw [← hnoted]; rfl
  obtain ⟨lost, jitter, hcounters⟩ : ∃ lost jitter,
      noted.counters = (r.counters.recordReceived datagram.length).setReception lost jitter := by
    rw [← hnoted]
    exact ⟨_, _, rfl⟩
  simp only [hreorder, hassembler, hbatch]
  refine ⟨{ noted with assembler := r.assembler, reorder := (r.reorder.add packet.header.sequence packet).popReady.2 },
    ?_⟩
  cases batch.failure with
  | none => exact ⟨batch.assembler.pool, lost, jitter, hseen, hcounters, rfl⟩
  | some fault =>
    exact ⟨AccessUnit.releaseAll batch.completed batch.assembler.pool, lost, jitter, hseen, hcounters, rfl⟩

/-- **A media datagram** is counted as it is tallied. -/
theorem tallies_processMedia (h : r.InStep) (datagram : Bytes) (arrival : UInt32) :
    Tallies r (r.processMedia datagram arrival).receiver (r.tallyMedia datagram arrival) := by
  cases hp : Rtp.Packet.parse datagram with
  | error reason =>
    unfold processMedia tallyMedia
    simp only [hp]
    exact ⟨rfl, rfl, (UInt64.add_zero _).symm, rfl, rfl, rfl, fun _ => rfl, h⟩
  | ok packet =>
    have hunits := r.processMedia_unitsReceived datagram arrival
    have htally : r.tallyMedia datagram arrival =
        { packets := 1
          octets := datagram.length
          readable := 1
          units := (r.processMedia datagram arrival).shown.length
          malformed := r.assembler.unreadable (handed r.assembler (r.ready datagram))
          dropped := r.assembler.givenUpAll (handed r.assembler (r.ready datagram)) } := by
      unfold tallyMedia
      simp only [hp]
    obtain ⟨hdropped, hmalformed⟩ := Assembler.processAll_stats (handed r.assembler (r.ready datagram)) r.assembler
    rw [← processAll_handed] at hdropped hmalformed
    obtain ⟨noted, pool, lost, jitter, hseen, hcounters, hreceiver⟩ := r.processMedia_adopts arrival hp rfl
    have hnew : (assemble r.assembler (r.ready datagram)).assembler.stats.malformed - noted.malformedSeen =
        r.assembler.unreadable (handed r.assembler (r.ready datagram)) := by
      rw [hmalformed, hseen, h]
      exact Nat.add_sub_cancel_left _ _
    rw [htally]
    rw [hreceiver] at hunits ⊢
    refine Tallies.withPool ?_ pool
    refine ⟨?_, ?_, hunits, ?_, ?_, hdropped, fun hnone => absurd hnone Nat.one_ne_zero, rfl⟩
    · rw [counters_adopt, hcounters]
      rfl
    · rw [counters_adopt, hcounters]
      rfl
    · rw [counters_adopt, hcounters, hnew]
      rfl
    · rw [counters_adopt]
      rfl

theorem tallies_processReport (h : r.InStep) (data : Bytes) (now : Nat) :
    Tallies r (r.processReport data now).2 (tallyReport data) := by
  unfold processReport tallyReport
  cases Rtcp.Report.parse data with
  | error reason =>
    exact ⟨(UInt64.add_zero _).symm, (UInt64.add_zero _).symm, (UInt64.add_zero _).symm, rfl, rfl, rfl, fun _ => rfl, h⟩
  | ok report => cases report <;> exact tallies_nothing h rfl rfl rfl

theorem tallies_buildReport (h : r.InStep) (reporter : UInt32) (now : Nat) :
    Tallies r (r.buildReport reporter now).2 {} := by
  unfold buildReport
  split <;> exact tallies_nothing h rfl rfl rfl

theorem tallies_answer (h : r.InStep) : ∀ input : Input, Tallies r (r.answer input).receiver (r.tallyInput input)
  | .media datagram arrival => tallies_processMedia h datagram arrival
  | .any datagram arrival now => by
    rw [answer, processDatagram, tallyInput]
    split
    · exact tallies_processReport h datagram now
    · exact tallies_processMedia h datagram arrival

theorem inStep_create {settings : ReceiverSettings} {cipher : Cipher} (hr : create settings cipher = .ok r) :
    r.InStep ∧ r.assembler.stats.dropped = 0 := by
  unfold create at hr
  cases hv : settings.validate with
  | error fault =>
    rw [hv] at hr
    cases hr
  | ok _ =>
    rw [hv] at hr
    obtain rfl := Except.ok.inj hr
    exact ⟨rfl, rfl⟩

end Receiver

/-! ## A run -/

namespace Consumer

open Receiver (Tallies InStep)

/-- What may happen to a receiver and the application behind it. -/
inductive Move where
  | act (act : Act)
  | report (data : Bytes) (now : Nat)
  | build (reporter : UInt32) (now : Nat)
  | reset

def move (c : Consumer) : Move → Consumer
  | .act act => c.next act
  | .report data now => { c with receiver := (c.receiver.processReport data now).2 }
  | .build reporter now => { c with receiver := (c.receiver.buildReport reporter now).2 }
  | .reset => { c with receiver := c.receiver.reset }

def moved (c : Consumer) (moves : List Move) : Consumer := moves.foldl move c

def tallyMove (c : Consumer) : Move → Tally
  | .act (.hand input) => c.receiver.tallyInput input
  | .act (.giveBack _) => {}
  | .report data _ => Receiver.tallyReport data
  | .build _ _ => {}
  | .reset => {}

/-- What happens that is counted in a run. -/
def tally : Consumer → List Move → Tally
  | _, [] => {}
  | c, m :: rest => c.tallyMove m + (c.move m).tally rest

variable {c : Consumer}

/-- **One move** that is no reset is counted as it is tallied. -/
theorem tallies_move (h : c.receiver.InStep) : ∀ m : Move, m ≠ .reset →
    Tallies c.receiver (c.move m).receiver (c.tallyMove m)
  | .act (.hand input), _ => (Receiver.tallies_answer h input).withPool _
  | .act (.giveBack _), _ => Receiver.tallies_nothing h rfl rfl rfl
  | .report data now, _ => Receiver.tallies_processReport h data now
  | .build reporter now, _ => Receiver.tallies_buildReport h reporter now
  | .reset, hne => absurd rfl hne

/-- **A run without a reset** is counted as it is tallied. -/
theorem tallies_moved : ∀ {moves : List Move} {c : Consumer}, c.receiver.InStep → .reset ∉ moves →
    Tallies c.receiver (c.moved moves).receiver (c.tally moves)
  | [], _, h, _ => Receiver.tallies_nothing h rfl rfl rfl
  | m :: rest, _, h, hnone => by
    have hfirst := tallies_move h m fun hm => hnone (hm ▸ List.mem_cons_self)
    exact hfirst.trans (tallies_moved hfirst.inStep fun hm => hnone (List.mem_cons_of_mem m hm))

/-- Resets or not, the assembler has given up the frames that are tallied. -/
theorem dropped_moved : ∀ {moves : List Move} {c : Consumer}, c.receiver.InStep →
    (c.moved moves).receiver.InStep ∧
      (c.moved moves).receiver.assembler.stats.dropped = c.receiver.assembler.stats.dropped + (c.tally moves).dropped
  | [], _, h => ⟨h, rfl⟩
  | m :: rest, c, h => by
    have hfirst : (c.move m).receiver.InStep ∧
        (c.move m).receiver.assembler.stats.dropped =
          c.receiver.assembler.stats.dropped + (c.tallyMove m).dropped := by
      by_cases hm : m = .reset
      · subst hm
        exact ⟨h, rfl⟩
      · have htallies := tallies_move h m hm
        exact ⟨htallies.inStep, htallies.dropped⟩
    obtain ⟨hstep, hdropped⟩ : ((c.move m).moved rest).receiver.InStep ∧ _ := dropped_moved hfirst.1
    refine ⟨hstep, hdropped.trans ?_⟩
    rw [hfirst.2, Nat.add_assoc]
    rfl

/-- **What the counters say since a reset.**  Datagrams, octets, units and unreadable packets are counted from the reset
on.  The frames given up are zero until a packet comes, and from then on all that have been given up since the
beginning; so they are those since the reset iff no packet has come since or none had been given up before. -/
theorem counts_since_reset {settings : ReceiverSettings} {cipher : Cipher} {r : Receiver}
    (hr : Receiver.create settings cipher = .ok r) (earlier : List Move) {later : List Move} (hlater : .reset ∉ later) :
    let start : Consumer := { receiver := r }
    let atReset := (start.moved earlier).move .reset
    let before := start.tally earlier
    let since := atReset.tally later
    let counters := (atReset.moved later).receiver.counters
    counters.packetsReceived = UInt64.ofNat since.packets ∧ counters.bytesReceived = UInt64.ofNat since.octets ∧
      counters.unitsReceived = UInt64.ofNat since.units ∧
      counters.malformedPackets = UInt64.ofNat since.malformed ∧
      counters.framesDropped =
        (if since.readable = 0 then 0 else UInt64.ofNat (before.dropped + since.dropped)) ∧
      (counters.framesDropped = UInt64.ofNat since.dropped ↔ since.readable = 0 ∨ before.dropped % 2 ^ 64 = 0) := by
  intro start atReset before since counters
  obtain ⟨hstep, hzero⟩ := Receiver.inStep_create hr
  obtain ⟨hbefore, hdropped⟩ : (start.moved earlier).receiver.InStep ∧ _ := dropped_moved hstep
  -- A reset leaves the assembler as it is, so the run after it starts in step, with what has been given up before.
  have htallies : Tallies atReset.receiver (atReset.moved later).receiver since := tallies_moved hbefore hlater
  have hframes : counters.framesDropped =
      if since.readable = 0 then 0 else UInt64.ofNat (before.dropped + since.dropped) := by
    have hall : atReset.receiver.assembler.stats.dropped = before.dropped :=
      hdropped.trans (by rw [show start.receiver.assembler.stats.dropped = 0 from hzero, Nat.zero_add])
    rw [← hall, ← htallies.dropped]
    exact htallies.framesDropped
  refine ⟨htallies.packets.trans (UInt64.zero_add _), htallies.octets.trans (UInt64.zero_add _),
    htallies.units.trans (UInt64.zero_add _), htallies.malformed.trans (UInt64.zero_add _), hframes, ?_⟩
  rw [hframes]
  by_cases hnone : since.readable = 0
  · rw [if_pos hnone, htallies.dropped_eq_zero hnone]
    exact iff_of_true rfl (.inl hnone)
  · rw [if_neg hnone, ← UInt64.toNat_inj, UInt64.toNat_ofNat', UInt64.toNat_ofNat']
    omega

/-- A packet without a payload: it cannot be read, and its frame is given up. -/
def blankMove (number : Serial) : Move := .act (.hand (.media (Rtp.Header.write ⟨true, 96, number, 0, 7⟩) 0))

/-- A packet that is a whole frame. -/
def wholeMove (number : Serial) : Move :=
  .act (.hand (.media (Rtp.Header.write ⟨true, 96, number, 3000, 7⟩ ++ [0x41, 0x9a]) 0))

/-- Nothing has been given up before the reset, so all is counted from there on. -/
theorem counts_since_reset_clean : ∃ r, Receiver.create {} .identity = .ok r ∧
    let atReset := (moved { receiver := r } [wholeMove 0]).move .reset
    let counters := (atReset.moved [blankMove 1, wholeMove 2]).receiver.counters
    Move.reset ∉ [blankMove 1, wholeMove 2] ∧ counters.packetsReceived = 2 ∧ counters.bytesReceived = 26 ∧
      counters.unitsReceived = 1 ∧ counters.malformedPackets = 1 ∧ counters.framesDropped = 1 := by
  have hlater : Move.reset ∉ [blankMove 1, wholeMove 2] := by
    intro h
    rcases List.mem_pair.1 h with h | h <;> cases h
  have hr : Receiver.create {} .identity = .ok _ := rfl
  obtain ⟨hpackets, hoctets, hunits, hmalformed, -, hdropped⟩ := counts_since_reset hr [wholeMove 0] hlater
  refine ⟨_, hr, hlater, hpackets, hoctets, hunits.trans ?_, hmalformed.trans ?_, (hdropped.2 (.inr ?_)).trans ?_⟩
  all_goals decide +kernel

/-- A frame that was given up before the reset is counted again when the next packet comes, though none has been given
up since. -/
theorem recalls_drops_before_reset : ∃ r, Receiver.create {} .identity = .ok r ∧
    let atReset := (moved { receiver := r } [blankMove 0]).move .reset
    (atReset.tally [wholeMove 1]).dropped = 0 ∧
      (atReset.moved [wholeMove 1]).receiver.counters.framesDropped = 1 :=
  ⟨_, rfl, by decide +kernel⟩

end Consumer
end VideoTransport
