import VideoTransport.Loopback.Run
import VideoTransport.Proofs.Joining
import VideoTransport.Proofs.Passage
/-!
# Unimpaired — a run in which nothing happens to the datagrams

In memory, and with no chance of loss or of being held back, a link passes everything on in order
(`Link.filled_calm`).  A made-up unit comes out as it went in, for it is in its normal form already
(`bytes_delivered_unitOf`), and even if other units have the same time it is compared with itself, for it was sent last.
So a run stays undisturbed step by step (`Undisturbed.step`), and that is what the command reports, as long as frames
are no longer than a piece of memory can be (`command_unimpaired`).
-/
namespace VideoTransport

theorem Cipher.xor_isSound (key : UInt8) : (xor key).IsSound := by
  intro m data
  have hback : (data.map (· ^^^ key)).map (· ^^^ key) = data := by
    rw [List.map_map]
    refine (List.map_congr_left fun b _ => ?_).trans (List.map_id data)
    rw [Function.comp, UInt8.xor_assoc, UInt8.xor_self, UInt8.xor_zero, id]
  refine ⟨_, rfl, Nat.le_of_eq (List.length_map _), ?_⟩
  exact congrArg Except.ok hback

namespace Loopback

theorem Options.cipher_isSound (o : Options) : o.cipher.IsSound := by
  unfold Options.cipher
  cases o.xorKey with
  | none => exact Cipher.identity_isSound
  | some key => exact Cipher.xor_isSound key

theorem Options.overhead_cipher (o : Options) : o.cipher.overhead = 0 := by
  unfold Options.cipher
  cases o.xorKey <;> rfl

/-! ## A calm link -/

/-- Datagrams are carried in memory, and none is ever lost or held back. -/
structure Weather.IsCalm (w : Weather) : Prop where
  carrier : w.carrier = .memory
  loss : w.loss = .never
  reorder : w.reorder = .never

/-- Nothing is held back, waits or has come to harm. -/
structure Link.IsClear (l : Link) : Prop where
  held : l.held = none
  passed : l.passed = []
  dropped : l.dropped = 0
  swapped : l.swapped = 0

variable {w : Weather}

theorem Link.send_calm (hw : w.IsCalm) {l : Link} (h : l.held = none) (data : Bytes) :
    Link.send w l data = (.ok (), { l with draws := l.draws + 2, passed := data :: l.passed }) := by
  unfold send forward throwDice pass passHeld
  simp [hw.carrier, hw.loss, hw.reorder, h, Carrier.carry]

theorem Link.takesAll_calm (hw : w.IsCalm) : (Link.send w).TakesAll fun l => l.held = none := by
  intro l h data
  rw [send_calm hw h]
  exact ⟨rfl, h⟩

/-- **In calm weather** everything passes in order, and no harm is done. -/
theorem Link.filled_calm (hw : w.IsCalm) : ∀ (datagrams : List Bytes) {l : Link}, l.held = none →
    ((Link.send w).filled l datagrams).held = none ∧
      ((Link.send w).filled l datagrams).passed = datagrams.reverse ++ l.passed ∧
      ((Link.send w).filled l datagrams).dropped = l.dropped ∧
      ((Link.send w).filled l datagrams).swapped = l.swapped
  | [], _, h => ⟨h, rfl, rfl, rfl⟩
  | data :: rest, l, h => by
    have ih := filled_calm hw rest (l := { l with draws := l.draws + 2, passed := data :: l.passed }) h
    rw [Sink.filled, List.foldl_cons, send_calm hw h, List.reverse_cons, List.append_assoc]
    exact ih

/-! ## What the receiving end takes -/

variable {st : State} {s : Serial} {unit : AccessUnit}

/-- A packet whose turn it is is taken, and what it finishes is counted and given back. -/
theorem takeDatagram_of_due (h : st.receiver.InTurn s) {datagram : Bytes} {packet : Rtp.Packet}
    (hparse : Rtp.Packet.parse datagram = .ok packet) (hs : packet.header.sequence = s)
    (hmedia : Rtcp.isReport datagram = false) {due : Option AccessUnit}
    (hanswer : (st.receiver.assembler.process packet).2 = .ok due) (at_ : Moment) :
    let arrival := Receiver.arrivalUnits st.receiver.settings.clockRate at_.nanos
    let receiver := (st.receiver.processMedia datagram arrival).receiver
    takeDatagram st at_ datagram = .ok (due.toList.foldl countUnit
      { st with receiver := receiver.withPool (AccessUnit.releaseAll due.toList receiver.pool) }) := by
  intro arrival receiver
  have hresult := (h.processMedia hparse hs hanswer arrival).1
  unfold takeDatagram Receiver.processDatagram
  simp only [hmedia, Bool.false_eq_true, if_false]
  rw [hresult]

/-- **The packets of a unit**, taken one after another, bring the unit at the end. -/
theorem takeDatagrams_convoy (at_ : Moment) {timestamp : UInt32} : ∀ {datagrams : List Bytes}
    {packets : List Rtp.Packet} {s : Serial} (st : State), st.receiver.InTurn s →
    datagrams.mapM Rtp.Packet.parse = .ok packets → (∀ datagram ∈ datagrams, Rtcp.isReport datagram = false) →
    Rtp.IsConvoy timestamp s packets →
    (st.receiver.assembler.processAll packets).2 =
      List.replicate (packets.length - 1) (.ok none) ++ [.ok (some unit)] →
    ∃ receiver, takeDatagrams st at_ datagrams = .ok (countUnit { st with receiver } unit) ∧
      Receiver.Brought st.receiver s datagrams packets unit receiver
  | [], packets, _, _, _, hparse, _, _, hanswers => by
    obtain rfl : packets = [] := (Except.ok.inj hparse).symm
    cases hanswers
  | datagram :: rest, packets, s, st, h, hparse, hmedia, hconvoy, hanswers => by
    obtain ⟨packet, later, rfl, hfirst, hrest⟩ := Rtp.mapM_parse_cons hparse
    obtain ⟨-, hs, -, hconvoy⟩ := hconvoy
    rw [List.forall_mem_cons] at hmedia
    rw [Assembler.processAll] at hanswers
    let arrival := Receiver.arrivalUnits st.receiver.settings.clockRate at_.nanos
    let receiver := (st.receiver.processMedia datagram arrival).receiver
    cases later with
    | nil =>
      -- the last packet finishes the unit
      have hanswer : (st.receiver.assembler.process packet).2 = .ok (some unit) := (List.cons.inj hanswers).1
      obtain ⟨-, hturn, hassembler, hcounted⟩ := h.processMedia hfirst hs hanswer arrival
      obtain rfl : rest = [] := by
        cases rest with
        | nil => rfl
        | cons other more =>
          obtain ⟨_, _, hnil, -⟩ := Rtp.mapM_parse_cons hrest
          cases hnil
      refine ⟨receiver.withPool (unit.release receiver.pool).2, ?_, hturn.withPool _, ?_, 1, _, _, Nat.one_ne_zero,
        hcounted.withPool _⟩
      · rw [takeDatagrams, takeDatagram_of_due h hfirst hs hmedia.1 hanswer at_]
        rfl
      · show { receiver.assembler with pool := (unit.release receiver.assembler.pool).2 } = _
        rw [hassembler]
        rfl
    | cons next more =>
      have hanswer : (st.receiver.assembler.process packet).2 = .ok none := (List.cons.inj hanswers).1
      obtain ⟨-, hturn, hassembler, hcounted⟩ := h.processMedia hfirst hs hanswer arrival
      have htaken := takeDatagram_of_due h hfirst hs hmedia.1 hanswer at_
      have hothers := (List.cons.inj hanswers).2
      rw [← hassembler] at hothers
      obtain ⟨receiver', hall, hbrought⟩ := takeDatagrams_convoy at_ { st with receiver } hturn hrest hmedia.2 hconvoy
        hothers
      refine ⟨receiver', ?_, hbrought.after hassembler hcounted⟩
      rw [takeDatagrams, htaken]
      exact hall

/-! ## One frame -/

/-- The access unit of the frame with this number. -/
def unitOf (o : Options) (e : Encoder) (index : Nat) : AccessUnit where
  buffer := ⟨some (Picture.bitstream index o.frameSize (isKeyFrame o e index))⟩
  isKeyFrame := isKeyFrame o e index
  timestamp := timestampOf o index
  captureTicks := index

variable {o : Options} {index : Nat}

theorem nalUnits_unitOf (o : Options) (e : Encoder) (index : Nat) :
    AnnexB.nalUnits (unitOf o e index).bytes = Picture.nals index o.frameSize (isKeyFrame o e index) :=
  Picture.nalUnits_bitstream index o.frameSize (isKeyFrame o e index)

/-- **A made-up unit comes out as it went in**: it is in its normal form already. -/
theorem bytes_delivered_unitOf (o : Options) (e : Encoder) (index : Nat) :
    (unitOf o e index).delivered.bytes = (unitOf o e index).bytes := by
  show AnnexB.join (AnnexB.nalUnits (unitOf o e index).bytes) = _
  rw [nalUnits_unitOf]
  rfl

/-- A frame is fit to be sent, and has been sent when its unit has. -/
theorem sendFrame_of_sent (hsize : o.frameSize ≤ Bytes.longest) {r : Sender.Sent Link}
    (hr : st.sender.send (Link.send w) st.link (unitOf o st.encoder index) = r) (hfault : r.fault = none) :
    sendFrame o w st index = .ok
      { st with
        sender := r.sender
        link := r.sink
        encoder := { st.encoder with keyWanted := false }
        sent := ((unitOf o st.encoder index).timestamp, (unitOf o st.encoder index).bytes) :: st.sent } := by
  subst hr
  have hopens : AnnexB.opensWithStartCode
      (Picture.bitstream index o.frameSize (isKeyFrame o st.encoder index)) = true :=
    AnnexB.opensWithStartCode_join (Picture.nals_ne_nil _ _ _)
  have hroom : (Pool.ofLimit 4).HasRoom := by decide
  unfold sendFrame AccessUnit.ofBytes
  dsimp only
  rw [Picture.make_of_fits hsize]
  dsimp only
  rw [if_pos hopens, Pool.acquire_of_room hroom]
  dsimp only [bind, Except.bind, pure, Except.pure, Except.mapError]
  split
  · rename_i fault hsome
    exact absurd (hfault.symm.trans hsome) nofun
  · rfl

/-- So far `index` frames have been sent and come out as they were, nothing has happened to a datagram, and nobody has
asked for a key frame. -/
structure Undisturbed (o : Options) (index : Nat) (st : State) : Prop where
  pace : InPace o.cipher st.sender st.receiver
  clear : st.link.IsClear
  encoder : st.encoder = {}
  droppedSeen : st.droppedSeen = 0
  delivered : st.delivered = index
  corrupt : st.corrupt = 0
  units : st.sender.counters.unitsSent = UInt64.ofNat index

/-- A unit that comes out as the latest one was sent counts as intact. -/
theorem countUnit_intact (st : State) {u : AccessUnit} {sent : List (UInt32 × Bytes)}
    (h : st.sent = (u.timestamp, u.bytes) :: sent) : countUnit st u = { st with delivered := st.delivered + 1 } := by
  unfold countUnit
  simp [h]

/-- **One frame** is sent, and comes out as it was. -/
theorem Undisturbed.frame (hw : w.IsCalm) (hsize : o.frameSize ≤ Bytes.longest) (h : Undisturbed o index st)
    (at_ : Moment) : ∃ sent st',
    sendFrame o w st index = .ok sent ∧ receivePassed sent at_ = .ok st' ∧ Undisturbed o (index + 1) st' := by
  let unit := unitOf o st.encoder index
  have hnals : AnnexB.nalUnits unit.bytes = Picture.nals index o.frameSize _ := nalUnits_unitOf o st.encoder index
  have hsent := Sender.sendsAll_send (Link.takesAll_calm hw) st.sender h.clear.held unit
  obtain ⟨packets, hparse, hmedia, hconvoy, hanswers, hpace⟩ := h.pace.next o.cipher_isSound
    (hnals ▸ Picture.nals_ne_nil _ _ _) (fun nal hnal => (Picture.nals_sound _ _ _ nal (hnals ▸ hnal)).2.2) hsent
  have hlink := Link.filled_calm hw (st.sender.send (Link.send w) st.link unit).taken h.clear.held
  rw [← hsent.sink, h.clear.passed, List.append_nil, h.clear.dropped, h.clear.swapped] at hlink
  generalize hr : st.sender.send (Link.send w) st.link unit = r at hsent hparse hmedia hpace hlink
  obtain ⟨hheld, hpassed, hdropped, hswapped⟩ := hlink
  -- the frame has been sent, and the receiver has taken its packets off the link
  let passing : State :=
    { st with
      sender := r.sender
      link := { r.sink with passed := [] }
      encoder := { st.encoder with keyWanted := false }
      sent := (unit.timestamp, unit.bytes) :: st.sent }
  obtain ⟨receiver, htaken, hbrought⟩ := takeDatagrams_convoy at_ passing h.pace.inTurn hparse hmedia hconvoy hanswers
  have hintact : passing.sent = (unit.delivered.timestamp, unit.delivered.bytes) :: st.sent := by
    rw [bytes_delivered_unitOf]
    rfl
  rw [countUnit_intact { passing with receiver } hintact] at htaken
  have hencoder : passing.encoder = {} := by
    show { st.encoder with keyWanted := false } = _
    rw [h.encoder]
  have hunits : r.sender.counters.unitsSent = UInt64.ofNat (index + 1) := by
    rw [hsent.counts.units, h.units, UInt64.ofNat_add]
  refine ⟨_, { passing with receiver, delivered := st.delivered + 1 }, sendFrame_of_sent hsize hr hsent.fault, ?_, ?_⟩
  · show takeDatagrams passing at_ r.sink.passed.reverse = _
    rw [hpassed, List.reverse_reverse]
    exact htaken
  · exact ⟨hpace receiver hbrought, ⟨hheld, rfl, hdropped, hswapped⟩, hencoder, h.droppedSeen,
      congrArg (· + 1) h.delivered, h.corrupt, hunits⟩

theorem Undisturbed.heedDrops (h : Undisturbed o index st) : heedDrops st = st := by
  unfold Loopback.heedDrops
  simp [h.droppedSeen, h.pace.framesDropped]

/-- **Reports** disturb nothing. -/
theorem Undisturbed.exchangeReports (h : Undisturbed o index st) (at_ : Moment) (timestamp : UInt32) :
    Undisturbed o index (exchangeReports st at_ timestamp) := by
  have hpace := ((h.pace.sender_report at_.wall timestamp).receiver_hears
    (st.sender.buildReport at_.wall timestamp).1.write at_.nanos).receiver_report reporter at_.nanos
  unfold Loopback.exchangeReports
  dsimp only
  split
  · rename_i hbuilt
    rw [hbuilt] at hpace
    exact ⟨hpace, h.clear, h.encoder, h.droppedSeen, h.delivered, h.corrupt, h.units⟩
  · rename_i reply _ hbuilt
    rw [hbuilt] at hpace
    have hunits := (Sender.counts_hear (st.sender.buildReport at_.wall timestamp).2 reply.write at_.wall).units
    refine ⟨hpace.sender_hears reply.write at_.wall, h.clear, h.encoder, h.droppedSeen, h.delivered, h.corrupt, ?_⟩
    exact hunits.trans ((UInt64.add_zero _).trans h.units)

/-- **One step** of an undisturbed run. -/
theorem Undisturbed.step (hw : w.IsCalm) (hsize : o.frameSize ≤ Bytes.longest) (h : Undisturbed o index st)
    (at_ : Moment) : ∃ st', step o w st index at_ = .ok st' ∧ Undisturbed o (index + 1) st' := by
  obtain ⟨sent, taken, hsend, hreceive, hframe⟩ := h.frame hw hsize at_
  have hstep : Loopback.step o w st index at_ =
      .ok (if endsSecond o index then Loopback.exchangeReports taken at_ (timestampOf o index) else taken) := by
    unfold Loopback.step
    rw [hsend]
    show ((receivePassed sent at_).mapError Ending.failed >>= _) = _
    rw [hreceive]
    show Except.ok _ = _
    rw [hframe.heedDrops]
  refine ⟨_, hstep, ?_⟩
  split
  · exact hframe.exchangeReports at_ _
  · exact hframe

/-! ## The whole run -/

variable {su : Surroundings}

/-- **A whole run** stays undisturbed, step by step; a run of no frames asks for no memory. -/
theorem Undisturbed.steps (hw : (o.weather su.dice).IsCalm) : ∀ (count : Nat) {index : Nat} {st : State},
    count = 0 ∨ o.frameSize ≤ Bytes.longest → Undisturbed o index st →
    ∃ st', steps o su count index st = .ok st' ∧ Undisturbed o (index + count) st'
  | 0, _, st, _, h => ⟨st, rfl, h⟩
  | count + 1, index, st, hfits, h => by
    have hsize := hfits.resolve_left (Nat.succ_ne_zero count)
    obtain ⟨next, hstep, hnext⟩ := h.step hw hsize (su.clock index)
    obtain ⟨last, hsteps, hlast⟩ := Undisturbed.steps hw count (.inr hsize) hnext
    refine ⟨last, ?_, ?_⟩
    · rw [Loopback.steps, hstep]
      exact hsteps
    · rwa [Nat.add_assoc, Nat.add_comm 1] at hlast

/-- A sender is set up if its datagrams have room for more than the headers. -/
theorem sender_create (hmtu : 14 < o.mtu) (ssrc : UInt32) (start : Serial) : ∃ sender,
    Sender.create { mtu := o.mtu } o.cipher ssrc start = .ok sender ∧ sender.counters = {} ∧
      sender.packetizer.nextSequence = start ∧
      sender.packetizer.IsInUse Packetizer.defaultPayloadType ssrc o.mtu o.cipher := by
  have hroom : Rtp.headerLength + Fragment.headerLength + o.cipher.overhead < o.mtu := by
    rw [o.overhead_cipher]
    exact hmtu
  have hvalid : SenderSettings.validate { mtu := o.mtu } = .ok () := by
    have hfault : SenderSettings.fault? { mtu := o.mtu } = none := (if_neg (Nat.not_le.2 hmtu)).trans rfl
    unfold SenderSettings.validate
    rw [hfault]
  have hpacketizer : Packetizer.create Packetizer.defaultPayloadType ssrc o.mtu o.cipher =
      .ok ⟨Packetizer.defaultPayloadType, ssrc, o.mtu, o.cipher, {}, none, none, hroom⟩ := dif_pos hroom
  refine ⟨⟨{ mtu := o.mtu }, _, {}, none⟩, ?_, rfl, rfl, .started start (.created hpacketizer)⟩
  unfold Sender.create
  rw [hvalid]
  show (Packetizer.create Packetizer.defaultPayloadType ssrc o.mtu o.cipher >>= _) = _
  rw [hpacketizer]
  rfl

/-- Nothing goes wrong at the beginning. -/
theorem undisturbed_begin (hmemory : o.udp = false) (hmtu : 14 < o.mtu) (su : Surroundings) :
    ∃ st, begin o su = .ok st ∧ Undisturbed o 0 st := by
  obtain ⟨sender, hsender, hcounters, hsequence, hinUse⟩ := sender_create hmtu su.ssrc su.start
  have hconnect : o.carrier.connect su.network = .ok () := by
    rw [Options.carrier, hmemory]
    rfl
  obtain ⟨receiver, hreceiver⟩ : ∃ r, Receiver.create {} o.cipher = .ok r := ⟨_, rfl⟩
  obtain ⟨peers, hpeers⟩ : ∃ p, negotiate o.session = .ok p := ⟨_, rfl⟩
  obtain ⟨-, hreorder, hassembler, hnothing⟩ := Receiver.create_eq_ok hreceiver
  obtain ⟨hstep, hdropped⟩ := Receiver.inStep_create hreceiver
  have hturn : receiver.InTurn su.start := by
    refine ⟨?_, ?_, ?_, ?_, hstep⟩ <;> rw [hreorder]
    · rfl
    · rfl
    · rfl
    · decide
  refine ⟨{ sender, receiver, peers }, ?_, ?_, ⟨rfl, rfl, rfl, rfl⟩, rfl, rfl, rfl, rfl, ?_⟩
  · unfold begin
    rw [hconnect, hsender, hreceiver, hpeers]
    rfl
  · refine ⟨⟨_, _, _, hinUse⟩, hsequence ▸ hturn, ?_, ?_, ?_, ?_, hdropped, ?_, ?_, ?_, ?_⟩
    · rw [hassembler]
      exact .create _ _
    · rw [hassembler]
      rfl
    · rw [hassembler]
      rfl
    · rw [Receiver.pool, hassembler]
      exact (show (Pool.ofLimit Pool.defaultLimit).HasRoom by decide)
    all_goals simp [hnothing, hcounters]
  · rw [hcounters]
    rfl

/-- The first frame ends a run if frames are to be longer than any piece of memory. -/
theorem run_of_oversized (hmemory : o.udp = false) (hmtu : 14 < o.mtu) (hframes : o.frames ≠ 0)
    (hsize : Bytes.longest < o.frameSize) (su : Surroundings) : run o su = .error .overflowed := by
  obtain ⟨first, hbegin, -⟩ := undisturbed_begin hmemory hmtu su
  obtain ⟨count, hcount⟩ : ∃ count, o.frames.toNat = count + 1 :=
    Nat.exists_eq_add_one_of_ne_zero fun hzero => hframes (UInt32.toNat_inj.1 hzero)
  have hsend : sendFrame o (o.weather su.dice) first 0 = .error .overflowed := by
    unfold sendFrame
    dsimp only
    rw [Picture.make_of_oversized hsize]
  unfold run
  rw [hbegin, hcount]
  show (step o (o.weather su.dice) first 0 (su.clock 0) >>= _) = _
  unfold step
  rw [hsend]
  rfl

/-- What is read from the words decides the outcome of the command. -/
theorem command_of_read {words : List String} (hread : Options.read words = .ok o) (su : Surroundings) :
    command words su = Outcome.ofRun o (run o su) := by
  unfold command
  rw [hread]

/-- **The unimpaired loopback is perfect**, as far as memory reaches.  Whatever the number of frames, their rate and
size, how often there is a key frame, and with or without a key, in memory, with room for more than the headers, and
with no chance of loss or of being held back: unless there is a frame to be longer than any piece of memory, the
command succeeds, all frames come out as they were sent, no datagram is lost or swapped, nobody asks for a key frame,
and the receiver counts the same datagrams, octets and units as the sender.  Otherwise there is no report. -/
theorem command_unimpaired {words : List String} {o : Options} (hread : Options.read words = .ok o)
    (hmemory : o.udp = false) (hmtu : 14 < o.mtu) (hloss : o.loss = .never) (hreorder : o.reorder = .never)
    (su : Surroundings) :
    (o.frames = 0 ∨ o.frameSize ≤ Bytes.longest → ∃ sent received : Counters,
      command words su =
        { exit := 0
          output :=
            ["frames sent       " ++ toString o.frames.toNat,
             "frames delivered  " ++ toString o.frames.toNat,
             "frames corrupt    0",
             "link              dropped=0 swapped=0",
             "key frame requests 0",
             "sender            " ++ sent.summary,
             "receiver          " ++ received.summary] } ∧
        sent.packetsSent = received.packetsReceived ∧ sent.bytesSent = received.bytesReceived ∧
        sent.unitsSent = UInt64.ofNat o.frames.toNat ∧ received.unitsReceived = UInt64.ofNat o.frames.toNat) ∧
    (o.frames ≠ 0 → Bytes.longest < o.frameSize →
      command words su = { exit := 101, output := [], errors := ["capacity overflow"] }) := by
  rw [command_of_read hread]
  refine ⟨fun hfits => ?_, fun hframes hsize => ?_⟩
  · have hcalm : (o.weather su.dice).IsCalm :=
      ⟨by rw [Options.weather, Options.carrier, hmemory]; rfl, hloss, hreorder⟩
    obtain ⟨first, hbegin, hfirst⟩ := undisturbed_begin hmemory hmtu su
    obtain ⟨last, hsteps, hlast⟩ := hfirst.steps hcalm o.frames.toNat (hfits.imp_left (congrArg UInt32.toNat))
    rw [Nat.zero_add] at hlast
    have hrun : run o su = .ok last := by
      unfold run
      rw [hbegin]
      exact hsteps
    refine ⟨last.sender.counters, last.receiver.counters, ?_, hlast.pace.packets, hlast.pace.bytes, hlast.units,
      hlast.pace.units ▸ hlast.units⟩
    rw [hrun]
    unfold Outcome.ofRun reportLines
    simp only [hlast.delivered, hlast.corrupt, hlast.clear.dropped, hlast.clear.swapped, hlast.encoder]
    rfl
  · rw [run_of_oversized hmemory hmtu hframes hsize]
    rfl

/-- What is left when a refusal would be forgotten is what has been read. -/
theorem eq_ok_of_toOption {r : Except Refusal Options} (h : r.toOption = some o) : r = .ok o := by
  cases r with
  | error refusal => cases h
  | ok read => rw [Option.some.inj h]

/-- Two key frames as short as can be, in datagrams for one octet each of a fragment, at a rate so high that both have
the same time, while the packet numbers go over their end. -/
theorem command_unimpaired_narrowest :
    let words := ["--frames=2", "--fps=4294967295", "--frame-size=0", "--key-interval=1", "--mtu=15", "--xor-key=90",
      "--loss=-0", "--reorder=-0"]
    let su : Surroundings :=
      { dice := dice 0, network := .unreachable, clock := fun _ => ⟨⟨0, 0⟩, 0⟩, ssrc := 7, start := 0xffff }
    ∃ sent received : Counters,
      command words su =
        { exit := 0
          output :=
            ["frames sent       2",
             "frames delivered  2",
             "frames corrupt    0",
             "link              dropped=0 swapped=0",
             "key frame requests 0",
             "sender            " ++ sent.summary,
             "receiver          " ++ received.summary] } ∧
        sent.packetsSent = received.packetsReceived ∧ sent.bytesSent = received.bytesReceived ∧
        sent.unitsSent = 2 ∧ received.unitsReceived = 2 := by
  intro words su
  let o : Options :=
    { frames := 2, fps := 4294967295, frameSize := 0, keyInterval := 1, loss := .never, reorder := .never, mtu := 15,
      xorKey := some 90 }
  have hread : Options.read words = .ok o := eq_ok_of_toOption (by decide +kernel)
  have hframes : ("frames sent       " ++ toString o.frames.toNat = "frames sent       2") ∧
      "frames delivered  " ++ toString o.frames.toNat = "frames delivered  2" := by decide +kernel
  obtain ⟨sent, received, hcommand, hcounts⟩ :=
    (command_unimpaired hread rfl (by decide) rfl rfl su).1 (.inr (by decide))
  rw [hframes.1, hframes.2] at hcommand
  exact ⟨sent, received, hcommand, hcounts⟩

/-- A frame that is to be longer by one octet than any piece of memory. -/
theorem command_oversized :
    let words := ["--frames=1", "--frame-size=9223372036854775808", "--loss=-0", "--reorder=-0"]
    ∃ o, Options.read words = .ok o ∧ o.udp = false ∧ 14 < o.mtu ∧ o.loss = .never ∧ o.reorder = .never ∧
      ∀ su, (command words su).exit ≠ 0 ∧ (command words su).output = [] := by
  let o : Options := { frames := 1, frameSize := 9223372036854775808, loss := .never, reorder := .never }
  have hread : Options.read ["--frames=1", "--frame-size=9223372036854775808", "--loss=-0", "--reorder=-0"] = .ok o :=
    eq_ok_of_toOption (by decide +kernel)
  refine ⟨o, hread, rfl, by decide, rfl, rfl, fun su => ?_⟩
  rw [command_of_read hread, run_of_oversized rfl (by decide) (by decide) (by decide)]
  exact ⟨by decide, rfl⟩

/-- No chance at all is the double zero. -/
example : Chance.ofBits 0 = .never := by decide +kernel

end Loopback
end VideoTransport
