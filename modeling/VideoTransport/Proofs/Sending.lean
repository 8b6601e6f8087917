import Mathlib.Algebra.Ring.Nat
import VideoTransport.Outbound.Sender
import VideoTransport.Proofs.Assembly
/-!
# Sending — what a sink is offered and what a sender counts

Whatever the cipher keeps back and the sink refuses: a sender counts the datagrams that the sink accepts, a call of
`send` fails iff one is refused, that datagram is the last one made of its unit, and sender reports state the counts
(`Sender.counts_accepted`).
-/
namespace VideoTransport

/-! ## Packets one at a time -/

namespace Packetizer

open Cursor (step_weight)

theorem length_emit {p : Packetizer} {timestamp : UInt32} {d : Draft} {packet : Bytes}
    (h : (p.emit timestamp d).1 = some packet) : Rtp.headerLength ≤ packet.length := by
  unfold emit at h
  simp only at h
  split at h
  · cases h
  · split at h
    · cases h
    · cases h
      rw [List.length_append, Rtp.Header.length_write]
      exact Nat.le_add_right _ _

theorem next_some {p p' : Packetizer} {c c' : Cursor} {packet : Bytes} (h : p.next c = (some packet, p', c')) :
    c'.weight < c.weight ∧ Rtp.headerLength ≤ packet.length := by
  rw [next] at h
  split at h
  · cases h
  · rename_i d c'' hstep
    have hweight := step_weight p.budget_piece_pos hstep
    split at h
    · rename_i packet' p'' hemit
      cases h
      exact ⟨hweight, length_emit (congrArg Prod.fst hemit)⟩
    · rename_i p'' hemit
      obtain ⟨hless, hlength⟩ := next_some h
      exact ⟨Nat.lt_trans hless hweight, hlength⟩
termination_by c.weight

theorem next_of_weight_zero {p : Packetizer} {c : Cursor} (h : c.weight = 0) : p.next c = (none, p, c) := by
  rw [next]
  split
  · rfl
  · rename_i hstep
    have := step_weight p.budget_piece_pos hstep
    omega

theorem pull_of_none {p p' : Packetizer} {c c' : Cursor} (h : p.next c = (none, p', c')) {n : Nat}
    (hn : c.weight ≤ n) : p.pull n c = ([], p', c') := by
  cases n with
  | zero =>
    rw [next_of_weight_zero (Nat.le_zero.1 hn)] at h
    cases h
    rfl
  | succ n => rw [pull, h]

theorem pull_of_some {p p' : Packetizer} {c c' : Cursor} {packet : Bytes} (h : p.next c = (some packet, p', c'))
    (n : Nat) : p.pull (n + 1) c = (packet :: (p'.pull n c').1, (p'.pull n c').2) := by
  rw [pull, h]

end Packetizer

/-! ## Offers -/

/-- A datagram that a sink has been handed, and what it said. -/
structure Offer where
  datagram : Bytes
  answer : Except Fault Unit

def Offer.isAccepted (o : Offer) : Bool := o.answer.isOk

/-- The datagrams that were accepted, in order. -/
def accepted (offers : List Offer) : List Bytes := (offers.filter Offer.isAccepted).map Offer.datagram

/-- A sink that notes what it is handed and what it says. -/
def Sink.watched {σ : Type} (sink : Sink σ) : Sink (σ × List Offer) := fun (st, log) datagram =>
  let (answer, st) := sink st datagram
  (answer, st, log ++ [⟨datagram, answer⟩])

namespace Sender

open Packetizer (Cursor)

variable {σ : Type} (sink : Sink σ)

def offers (s : Sender) (st : σ) (u : AccessUnit) : List Offer := (s.send sink.watched (st, []) u).sink.2

/-- How the sending of what a cursor holds has gone. -/
structure Conduct (p : Packetizer) (c : Cursor) (counters : Counters) (offers : List Offer) (sent : Sent σ) : Prop where
  counters : sent.sender.counters = (accepted offers).foldl (fun n d => n.recordSent d.length) counters
  taken : sent.taken = accepted offers
  headers : ∀ o ∈ offers, Rtp.headerLength ≤ o.datagram.length
  finished : sent.fault = none → (∀ o ∈ offers, o.answer = .ok ()) ∧
    ∀ n, c.weight ≤ n → ∃ c', p.pull n c = (offers.map Offer.datagram, sent.sender.packetizer, c')
  refused : ∀ fault, sent.fault = some fault → ∃ before datagram, offers = before ++ [⟨datagram, .error fault⟩] ∧
    (∀ o ∈ before, o.answer = .ok ()) ∧
    ∃ c', p.pull offers.length c = (offers.map Offer.datagram, sent.sender.packetizer, c')

variable {sink} {fuel : Nat} {c c' : Cursor} {p' : Packetizer} {s : Sender} {st st' : σ} {packet : Bytes}

theorem sendPackets_over (h : s.packetizer.next c = (none, p', c')) :
    sendPackets sink (fuel + 1) c s st = ⟨{ s with packetizer := p' }, st, [], none⟩ := by
  rw [sendPackets, h]

theorem sendPackets_refused (h : s.packetizer.next c = (some packet, p', c')) {fault : Fault}
    (hanswer : sink st packet = (.error fault, st')) :
    sendPackets sink (fuel + 1) c s st = ⟨{ s with packetizer := p' }, st', [], some fault⟩ := by
  rw [sendPackets, h]
  simp only [hanswer]

theorem sendPackets_accepted (h : s.packetizer.next c = (some packet, p', c'))
    (hanswer : sink st packet = (.ok (), st')) :
    sendPackets sink (fuel + 1) c s st =
      let sent := sendPackets sink fuel c'
        { s with packetizer := p', counters := s.counters.recordSent packet.length } st'
      { sent with taken := packet :: sent.taken } := by
  rw [sendPackets, h]
  simp only [hanswer]

theorem Conduct.over (h : s.packetizer.next c = (none, p', c')) :
    Conduct s.packetizer c s.counters [] (⟨{ s with packetizer := p' }, st, [], none⟩ : Sent σ) where
  counters := rfl
  taken := rfl
  headers o ho := absurd ho List.not_mem_nil
  finished _ := ⟨fun o ho => absurd ho List.not_mem_nil, fun n hn => ⟨c', Packetizer.pull_of_none h hn⟩⟩
  refused fault hfault := by cases hfault

theorem Conduct.refuse (h : s.packetizer.next c = (some packet, p', c')) (fault : Fault) :
    Conduct s.packetizer c s.counters [⟨packet, .error fault⟩]
      (⟨{ s with packetizer := p' }, st, [], some fault⟩ : Sent σ) where
  counters := rfl
  taken := rfl
  headers o ho := by
    rw [List.mem_singleton.1 ho]
    exact (Packetizer.next_some h).2
  finished hnone := by cases hnone
  refused fault' hfault := by
    obtain rfl : fault = fault' := Option.some.inj hfault
    exact ⟨[], packet, rfl, fun o ho => absurd ho List.not_mem_nil, c', Packetizer.pull_of_some h 0⟩

theorem Conduct.accept {p : Packetizer} {counters : Counters} {offers : List Offer} {sent : Sent σ}
    (h : p.next c = (some packet, p', c')) (hrest : Conduct p' c' (counters.recordSent packet.length) offers sent) :
    Conduct p c counters (⟨packet, .ok ()⟩ :: offers) { sent with taken := packet :: sent.taken } := by
  obtain ⟨hless, hlength⟩ := Packetizer.next_some h
  refine ⟨hrest.counters, congrArg (packet :: ·) hrest.taken, List.forall_mem_cons.2 ⟨hlength, hrest.headers⟩, ?_, ?_⟩
  · intro hnone
    obtain ⟨hall, hpull⟩ := hrest.finished hnone
    refine ⟨List.forall_mem_cons.2 ⟨rfl, hall⟩, ?_⟩
    intro n hn
    obtain ⟨n, rfl⟩ : ∃ k, n = k + 1 := ⟨n - 1, by omega⟩
    obtain ⟨last, hlast⟩ := hpull n (by omega)
    exact ⟨last, by rw [Packetizer.pull_of_some h, hlast, List.map_cons]⟩
  · intro fault hfault
    obtain ⟨before, datagram, rfl, hall, last, hlast⟩ := hrest.refused fault hfault
    refine ⟨⟨packet, .ok ()⟩ :: before, datagram, rfl, List.forall_mem_cons.2 ⟨rfl, hall⟩, last, ?_⟩
    rw [List.length_cons, Packetizer.pull_of_some h, hlast, List.map_cons]

theorem watched_of_answer {answer : Except Fault Unit} (h : sink st packet = (answer, st')) (log : List Offer) :
    sink.watched (st, log) packet = (answer, st', log ++ [⟨packet, answer⟩]) := by
  unfold Sink.watched
  simp only [h]

variable (sink) in
/-- **The packets of a cursor**, one after another: watching the sink changes nothing, and shows how it goes. -/
theorem sendPackets_watched : ∀ {fuel : Nat} {c : Cursor} (s : Sender) (st : σ), c.weight < fuel →
    ∃ offers, (∀ log, sendPackets sink.watched fuel c s (st, log) =
        { sendPackets sink fuel c s st with sink := ((sendPackets sink fuel c s st).sink, log ++ offers) }) ∧
      Conduct s.packetizer c s.counters offers (sendPackets sink fuel c s st)
  | 0, _, _, _, h => absurd h (Nat.not_lt_zero _)
  | fuel + 1, c, s, st, hfuel => by
    -- Either all packets have been made, or the sink refuses the next one, or it takes it and has the rest before it.
    rcases hnext : s.packetizer.next c with ⟨_ | packet, p', c'⟩
    · refine ⟨[], fun log => ?_, ?_⟩
      · rw [sendPackets_over hnext, sendPackets_over hnext, List.append_nil]
      · rw [sendPackets_over hnext]
        exact .over hnext
    rcases hanswer : sink st packet with ⟨fault | _, st'⟩
    · refine ⟨[⟨packet, .error fault⟩], fun log => ?_, ?_⟩
      · rw [sendPackets_refused hnext hanswer, sendPackets_refused hnext (watched_of_answer hanswer log)]
      · rw [sendPackets_refused hnext hanswer]
        exact .refuse hnext fault
    · obtain ⟨hless, -⟩ := Packetizer.next_some hnext
      obtain ⟨offers, hsame, hconduct⟩ := sendPackets_watched
        { s with packetizer := p', counters := s.counters.recordSent packet.length } st'
        (Nat.lt_of_lt_of_le hless (Nat.le_of_lt_succ hfuel))
      refine ⟨⟨packet, .ok ()⟩ :: offers, fun log => ?_, ?_⟩
      · rw [sendPackets_accepted hnext hanswer, sendPackets_accepted hnext (watched_of_answer hanswer log), hsame,
          List.append_assoc]
        rfl
      · rw [sendPackets_accepted hnext hanswer]
        exact hconduct.accept hnext

variable (sink) in
/-- **One call**: watching the sink changes nothing, and shows how the packets of the unit go. -/
theorem send_watched (s : Sender) (st : σ) (u : AccessUnit) :
    (∀ log, s.send sink.watched (st, log) u =
        { s.send sink st u with sink := ((s.send sink st u).sink, log ++ s.offers sink st u) }) ∧
      ∃ sent : Sent σ, Conduct (s.packetizer.begin u).2 (s.packetizer.begin u).1 s.counters (s.offers sink st u) sent ∧
        s.send sink st u = match sent.fault with
          | some _ => sent
          | none => { sent with sender := { sent.sender with counters := sent.sender.counters.recordUnitSent } } := by
  obtain ⟨offers, hsame, hconduct⟩ := sendPackets_watched sink
    { s with packetizer := (s.packetizer.begin u).2 } st (Nat.lt_add_one (s.packetizer.begin u).1.weight)
  generalize hsent : sendPackets sink ((s.packetizer.begin u).1.weight + 1) (s.packetizer.begin u).1
    { s with packetizer := (s.packetizer.begin u).2 } st = sent at hsame hconduct
  have hplain : s.send sink st u = match sent.fault with
      | some _ => sent
      | none => { sent with sender := { sent.sender with counters := sent.sender.counters.recordUnitSent } } := by
    rw [← hsent]
    rfl
  have hsend (log : List Offer) : s.send sink.watched (st, log) u =
      { s.send sink st u with sink := ((s.send sink st u).sink, log ++ offers) } := by
    rw [hplain]
    unfold send
    simp only [hsame]
    obtain ⟨_, _, _, fault⟩ := sent
    cases fault <;> rfl
  have hoffers : s.offers sink st u = offers := by
    unfold Sender.offers
    rw [hsend]
    rfl
  rw [hoffers]
  exact ⟨hsend, sent, hconduct, hplain⟩

/-- **How a call ends**: it fails iff a datagram is refused, and that one is the last to be made of the unit; else all
packets of the unit have been made. -/
structure Ends (s : Sender) (u : AccessUnit) (offers : List Offer) (sent : Sent σ) : Prop where
  taken : sent.taken = accepted offers
  fails_iff : sent.fault.isSome = true ↔ ∃ o ∈ offers, o.isAccepted = false
  refused : ∀ fault, sent.fault = some fault → ∃ before datagram, offers = before ++ [⟨datagram, .error fault⟩] ∧
    (∀ o ∈ before, o.answer = .ok ()) ∧ ∃ c', (s.packetizer.begin u).2.pull offers.length (s.packetizer.begin u).1 =
      (offers.map Offer.datagram, sent.sender.packetizer, c')
  finished : sent.fault = none → s.packetizer.packets u = (offers.map Offer.datagram, sent.sender.packetizer)

theorem ends_send (s : Sender) (st : σ) (u : AccessUnit) : Ends s u (s.offers sink st u) (s.send sink st u) := by
  obtain ⟨-, sent, hconduct, hsend⟩ := send_watched sink s st u
  have hkept : (s.send sink st u).taken = sent.taken ∧ (s.send sink st u).fault = sent.fault ∧
      (s.send sink st u).sender.packetizer = sent.sender.packetizer := by
    rw [hsend]
    split
    · exact ⟨rfl, rfl, rfl⟩
    · exact ⟨rfl, rfl, rfl⟩
  obtain ⟨htaken, hfault, hpacketizer⟩ := hkept
  refine ⟨htaken.trans hconduct.taken, ?_, ?_, ?_⟩
  · rw [hfault]
    constructor
    · intro hfails
      obtain ⟨fault, hsome⟩ := Option.isSome_iff_exists.1 hfails
      obtain ⟨before, datagram, hoffers, -⟩ := hconduct.refused fault hsome
      exact ⟨⟨datagram, .error fault⟩, by simp [hoffers], rfl⟩
    · rintro ⟨o, ho, hrefused⟩
      refine Option.isSome_iff_ne_none.2 fun hnone => ?_
      rw [Offer.isAccepted, (hconduct.finished hnone).1 o ho] at hrefused
      cases hrefused
  · intro fault hsome
    rw [hpacketizer]
    exact hconduct.refused fault (hfault ▸ hsome)
  · intro hnone
    obtain ⟨c', hpull⟩ := (hconduct.finished (hfault ▸ hnone)).2 _ (Nat.le_refl _)
    unfold Packetizer.packets
    simp only [hpull, hpacketizer]

/-! ## Runs -/

inductive Deed where
  | send (u : AccessUnit)
  | build (time : Rtcp.WallTime) (rtpTimestamp : UInt32)
  | hear (data : Bytes) (now : Rtcp.WallTime)

variable (sink)

def perform (x : Sender × σ) : Deed → Sender × σ
  | .send u => ((x.1.send sink x.2 u).sender, (x.1.send sink x.2 u).sink)
  | .build time rtpTimestamp => ((x.1.buildReport time rtpTimestamp).2, x.2)
  | .hear data now => ((x.1.processReport data now).sender, x.2)

def after (x : Sender × σ) (deeds : List Deed) : Sender × σ := deeds.foldl (perform sink) x

/-- All that the sink is handed in a run. -/
def journal : Sender × σ → List Deed → List Offer
  | _, [] => []
  | x, .send u :: rest => x.1.offers sink x.2 u ++ journal (perform sink x (.send u)) rest
  | x, d :: rest => journal (perform sink x d) rest

/-- How many calls of `send` in a run have succeeded. -/
def completed : Sender × σ → List Deed → Nat
  | _, [] => 0
  | x, .send u :: rest =>
    (if (x.1.send sink x.2 u).fault.isNone then 1 else 0) + completed (perform sink x (.send u)) rest
  | x, d :: rest => completed (perform sink x d) rest

variable {sink}

/-- Counters have gone on by some datagrams and units. -/
structure Counts (n n' : Counters) (datagrams : List Bytes) (units : Nat) : Prop where
  packets : n'.packetsSent = n.packetsSent + UInt64.ofNat datagrams.length
  bytes : n'.bytesSent = n.bytesSent + UInt64.ofNat (datagrams.map List.length).sum
  units : n'.unitsSent = n.unitsSent + UInt64.ofNat units

theorem Counts.trans {n n' n'' : Counters} {datagrams more : List Bytes} {units others : Nat}
    (h : Counts n n' datagrams units) (h' : Counts n' n'' more others) :
    Counts n n'' (datagrams ++ more) (units + others) where
  packets := by rw [h'.packets, h.packets, List.length_append, UInt64.ofNat_add, UInt64.add_assoc]
  bytes := by rw [h'.bytes, h.bytes, List.map_append, List.sum_append, UInt64.ofNat_add, UInt64.add_assoc]
  units := by rw [h'.units, h.units, UInt64.ofNat_add, UInt64.add_assoc]

theorem counts_nothing {n n' : Counters} (hpackets : n'.packetsSent = n.packetsSent)
    (hbytes : n'.bytesSent = n.bytesSent) (hunits : n'.unitsSent = n.unitsSent) : Counts n n' [] 0 where
  packets := hpackets.trans (UInt64.add_zero _).symm
  bytes := hbytes.trans (UInt64.add_zero _).symm
  units := hunits.trans (UInt64.add_zero _).symm

theorem counts_foldl : ∀ (datagrams : List Bytes) (n : Counters),
    Counts n (datagrams.foldl (fun n d => n.recordSent d.length) n) datagrams 0
  | [], _ => counts_nothing rfl rfl rfl
  | d :: rest, n => by
    have hfirst : Counts n (n.recordSent d.length) [d] 0 := ⟨rfl, rfl, (UInt64.add_zero _).symm⟩
    exact hfirst.trans (counts_foldl rest (n.recordSent d.length))

theorem counts_send (s : Sender) (st : σ) (u : AccessUnit) :
    Counts s.counters (s.send sink st u).sender.counters (accepted (s.offers sink st u))
      (if (s.send sink st u).fault.isNone then 1 else 0) := by
  obtain ⟨-, sent, hconduct, hsend⟩ := send_watched sink s st u
  have hall := counts_foldl (accepted (s.offers sink st u)) s.counters
  rw [← hconduct.counters] at hall
  rw [hsend]
  cases hfault : sent.fault with
  | some fault =>
    simp only [hfault]
    exact hall
  | none =>
    have hunit : Counts sent.sender.counters sent.sender.counters.recordUnitSent [] 1 :=
      ⟨(UInt64.add_zero _).symm, (UInt64.add_zero _).symm, rfl⟩
    have hboth := hall.trans hunit
    rw [List.append_nil] at hboth
    exact hboth

theorem counts_hear (s : Sender) (data : Bytes) (now : Rtcp.WallTime) :
    Counts s.counters (s.processReport data now).sender.counters [] 0 := by
  unfold processReport
  repeat' split
  all_goals exact counts_nothing rfl rfl rfl

theorem accepted_append (offers more : List Offer) : accepted (offers ++ more) = accepted offers ++ accepted more := by
  simp [accepted]

/-- **A run** is counted as the sink takes it. -/
theorem counts_after : ∀ (deeds : List Deed) (x : Sender × σ),
    Counts x.1.counters (after sink x deeds).1.counters (accepted (journal sink x deeds)) (completed sink x deeds)
  | [], _ => counts_nothing rfl rfl rfl
  | .send u :: rest, x => by
    rw [journal, accepted_append]
    exact (counts_send x.1 x.2 u).trans (counts_after rest (perform sink x (.send u)))
  | .build time rtpTimestamp :: rest, x => counts_after rest (perform sink x (.build time rtpTimestamp))
  | .hear data now :: rest, x => by
    have hall := (counts_hear x.1 data now).trans (counts_after rest (perform sink x (.hear data now)))
    rw [List.nil_append, Nat.zero_add] at hall
    exact hall

theorem headers_journal : ∀ (deeds : List Deed) (x : Sender × σ),
    ∀ o ∈ journal sink x deeds, Rtp.headerLength ≤ o.datagram.length
  | [], _, _, ho => absurd ho List.not_mem_nil
  | .send u :: rest, x, o, ho => by
    rcases List.mem_append.1 ho with ho | ho
    · obtain ⟨-, _, hconduct, -⟩ := send_watched sink x.1 x.2 u
      exact hconduct.headers o ho
    · exact headers_journal rest (perform sink x (.send u)) o ho
  | .build time rtpTimestamp :: rest, x, o, ho => headers_journal rest (perform sink x (.build time rtpTimestamp)) o ho
  | .hear data now :: rest, x, o, ho => headers_journal rest (perform sink x (.hear data now)) o ho

/-! ## What reports state -/

/-- The octets of datagrams less their headers. -/
def payloads (datagrams : List Bytes) : Nat := (datagrams.map fun d => d.length - Rtp.headerLength).sum

theorem sum_length : ∀ {datagrams : List Bytes}, (∀ d ∈ datagrams, Rtp.headerLength ≤ d.length) →
    (datagrams.map List.length).sum = payloads datagrams + 12 * datagrams.length
  | [], _ => rfl
  | d :: rest, h => by
    have hfirst : 12 ≤ d.length := h d List.mem_cons_self
    have ih := sum_length fun e he => h e (List.mem_cons_of_mem d he)
    unfold payloads at ih ⊢
    rw [List.map_cons, List.sum_cons, ih, List.map_cons, List.sum_cons, List.length_cons, Rtp.headerLength]
    omega

/-- The octets reported are those of the payloads, unless the octets of all datagrams, counted modulo 2^64, are fewer
than those of their headers. -/
theorem payloadOctets_eq {n : Counters} {octets packets payload : Nat} (hpackets : n.packetsSent = UInt64.ofNat packets)
    (hbytes : n.bytesSent = UInt64.ofNat octets) (h : octets = payload + 12 * packets) :
    (payloadOctets n).toUInt32 =
      if octets % 2 ^ 64 < 12 * packets % 2 ^ 64 then 0 else UInt32.ofNat payload := by
  have hheaders : (n.packetsSent * UInt64.ofNat Rtp.headerLength).toNat = 12 * packets % 2 ^ 64 := by
    rw [hpackets, UInt64.toNat_mul, UInt64.toNat_ofNat', UInt64.toNat_ofNat', Rtp.headerLength]
    omega
  have hoctets : n.bytesSent.toNat = octets % 2 ^ 64 := by rw [hbytes, UInt64.toNat_ofNat']
  unfold payloadOctets
  simp only [UInt64.lt_iff_toNat_lt, hheaders, hoctets]
  split
  · rfl
  · rw [← UInt32.toNat_inj, UInt64.toNat_toUInt32, UInt64.toNat_sub, hheaders, hoctets, UInt32.toNat_ofNat']
    omega

theorem create_counters {settings : SenderSettings} {cipher : Cipher} {ssrc : UInt32} {start : Serial} {s : Sender}
    (hs : create settings cipher ssrc start = .ok s) : s.counters = {} := by
  unfold create at hs
  cases hv : settings.validate with
  | error fault =>
    rw [hv] at hs
    cases hs
  | ok _ =>
    rw [hv] at hs
    cases hp : Packetizer.create settings.payloadType (settings.ssrc.getD ssrc) settings.mtu cipher with
    | error fault =>
      simp only [hp, Bind.bind, Except.bind] at hs
      cases hs
    | ok packetizer =>
      simp only [hp, Bind.bind, Except.bind, pure, Except.pure] at hs
      cases hs
      rfl

/-- **Sender accounting.**  Whatever a new sender is made to do, with any cipher and any sink: the counters hold how
many datagrams the sink has accepted, how many octets they have and how many calls have succeeded.  Any further call
fails iff the sink refuses a datagram, and then none is made after it.  Any report states how many datagrams have been
accepted, and how many octets their payloads have; it would state fewer only after 2^64 octets, when the octets of all
datagrams are counted from zero again. -/
theorem counts_accepted {settings : SenderSettings} {cipher : Cipher} {ssrc : UInt32} {start : Serial} {s : Sender}
    (hs : create settings cipher ssrc start = .ok s) (sink : Sink σ) (st : σ) (deeds : List Deed) :
    let x := after sink (s, st) deeds
    let taken := accepted (journal sink (s, st) deeds)
    let octets := (taken.map List.length).sum
    x.1.counters.packetsSent = UInt64.ofNat taken.length ∧ x.1.counters.bytesSent = UInt64.ofNat octets ∧
      x.1.counters.unitsSent = UInt64.ofNat (completed sink (s, st) deeds) ∧
      (∀ u, Ends x.1 u (x.1.offers sink x.2 u) (x.1.send sink x.2 u)) ∧
      ∀ time rtpTimestamp,
        let report := (x.1.buildReport time rtpTimestamp).1
        report.packetCount = UInt32.ofNat taken.length ∧
          report.octetCount =
            (if octets % 2 ^ 64 < 12 * taken.length % 2 ^ 64 then 0 else UInt32.ofNat (payloads taken)) ∧
          (octets < 2 ^ 64 → report.octetCount = UInt32.ofNat (payloads taken)) := by
  intro x taken octets
  have hcounts : Counts s.counters x.1.counters taken (completed sink (s, st) deeds) := counts_after deeds (s, st)
  rw [create_counters hs] at hcounts
  have hpackets : x.1.counters.packetsSent = UInt64.ofNat taken.length := hcounts.packets.trans (UInt64.zero_add _)
  have hbytes : x.1.counters.bytesSent = UInt64.ofNat octets := hcounts.bytes.trans (UInt64.zero_add _)
  have hheaders : ∀ d ∈ taken, Rtp.headerLength ≤ d.length := by
    intro d hd
    obtain ⟨o, ho, rfl⟩ := List.mem_map.1 hd
    exact headers_journal deeds (s, st) o (List.mem_filter.1 ho).1
  have hoctets : octets = payloads taken + 12 * taken.length := sum_length hheaders
  refine ⟨hpackets, hbytes, hcounts.units.trans (UInt64.zero_add _), fun u => ends_send x.1 x.2 u, ?_⟩
  intro time rtpTimestamp report
  have hstated := payloadOctets_eq hpackets hbytes hoctets
  refine ⟨?_, hstated, fun hfew => hstated.trans (if_neg (by omega))⟩
  show x.1.counters.packetsSent.toUInt32 = _
  rw [hpackets, ← UInt32.toNat_inj, UInt64.toNat_toUInt32, UInt64.toNat_ofNat', UInt32.toNat_ofNat']
  omega

/-- A cipher that fails on packet number 1. -/
def brittle : Cipher where
  encrypt m data := if m.sequence = 1 then .error "" else .ok data
  decrypt _ data := .ok data

/-- A sink that refuses the second datagram. -/
def picky : Sink Nat := fun n _ => (if n = 1 then .error .channelClosed else .ok (), n + 1)

/-- Of three packets the second is not made and the third is refused, so the unit fails; the next unit is one packet,
and is sent. -/
theorem counts_accepted_picky : ∃ s, create {} brittle 7 0 = .ok s ∧
    let x := after picky (s, 0)
      [.send (.assembled 0 [[0x67, 0x42], [0x68, 0xce], [0x65, 0x88]]), .send (.assembled 3000 [[0x41, 0x9a]])]
    x.1.counters.packetsSent = 2 ∧ x.1.counters.bytesSent = 28 ∧ x.1.counters.unitsSent = 1 ∧
      (x.1.buildReport ⟨0, 0⟩ 0).1.packetCount = 2 ∧ (x.1.buildReport ⟨0, 0⟩ 0).1.octetCount = 4 := by
  have hs : create {} brittle 7 0 = .ok _ := rfl
  obtain ⟨hpackets, hbytes, hunits, -, hreport⟩ := counts_accepted hs picky 0
    [.send (.assembled 0 [[0x67, 0x42], [0x68, 0xce], [0x65, 0x88]]), .send (.assembled 3000 [[0x41, 0x9a]])]
  obtain ⟨hcount, -, hoctets⟩ := hreport ⟨0, 0⟩ 0
  refine ⟨_, hs, hpackets.trans ?_, hbytes.trans ?_, hunits.trans ?_, hcount.trans ?_, (hoctets ?_).trans ?_⟩
  all_goals decide +kernel

end Sender
end VideoTransport
