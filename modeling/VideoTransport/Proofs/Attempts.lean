import VideoTransport.Proofs.RoundTrip
import VideoTransport.Proofs.Sending
/-!
# Attempts — what calls of `send` put on their way

A call of `send` makes the drafts of its unit into datagrams, one position of the stream for each, until the sink
refuses one.  With a sound cipher nothing is kept back, so the datagrams that the sink accepts bear the first drafts of
the unit, from the position on where the call before has stopped (`Runs`); all of them if the call succeeds, and all
but the refused one, whose position is lost, if it fails (`allRun_attempts`).
-/
namespace VideoTransport

open Serial (nth)

namespace Packetizer

/-- A datagram that reads as a packet with draft `d` at position `k` of a stream. -/
def Bears (p : Packetizer) (k : Nat) (timestamp : UInt32) (d : Draft) (datagram : Bytes) : Prop :=
  ∃ packet, Rtp.Packet.parse datagram = .ok packet ∧ packet.header.timestamp = timestamp ∧
    packet.header.sequence = nth p.nextSequence k ∧ packet.header.marker = d.marker ∧
    ∀ a : Assembler, a.cipher = p.cipher → ∀ content, a.heard packet content = content.hear d.payload

/-- A packetizer that goes on with the stream of `p` at position `k`. -/
def Continues (p : Packetizer) (k : Nat) (q : Packetizer) : Prop :=
  ∃ s t, q = (p.startAt (nth p.nextSequence k)).withSets s t

variable {p q : Packetizer} {k : Nat}

theorem continues_self (p : Packetizer) : p.Continues 0 p := by
  refine ⟨p.sequenceSet, p.pictureSet, ?_⟩
  rw [Serial.nth_zero]
  rfl

theorem Continues.nth_eq (h : p.Continues k q) (j : Nat) : nth q.nextSequence j = nth p.nextSequence (k + j) := by
  obtain ⟨s, t, rfl⟩ := h
  exact Serial.nth_nth _ _ _

theorem Continues.cipher (h : p.Continues k q) : q.cipher = p.cipher := by
  obtain ⟨s, t, rfl⟩ := h
  rfl

theorem Continues.drafts (h : p.Continues k q) (u : AccessUnit) : q.drafts u = p.drafts u := by
  obtain ⟨s, t, rfl⟩ := h
  rfl

theorem Continues.withSets (h : p.Continues k q) (s t : Option Bytes) : p.Continues k (q.withSets s t) := by
  obtain ⟨s', t', rfl⟩ := h
  exact ⟨s, t, rfl⟩

theorem Continues.startAt (h : p.Continues k q) (j : Nat) : p.Continues (k + j) (q.startAt (nth q.nextSequence j)) := by
  rw [h.nth_eq]
  obtain ⟨s, t, rfl⟩ := h
  exact ⟨s, t, rfl⟩

theorem Continues.bears (h : p.Continues k q) {j : Nat} {timestamp : UInt32} {d : Draft} {datagram : Bytes}
    (hb : q.Bears j timestamp d datagram) : p.Bears (k + j) timestamp d datagram := by
  obtain ⟨packet, hparse, htime, hsequence, hmarker, hheard⟩ := hb
  rw [h.nth_eq] at hsequence
  rw [h.cipher] at hheard
  exact ⟨packet, hparse, htime, hsequence, hmarker, hheard⟩

/-! ## Pulling -/

/-- **Pulling with a sound cipher** makes datagrams that bear the first drafts of what remains. -/
theorem pull_bears : ∀ (n : Nat) (p : Packetizer) (c : Cursor) {drafts : List Draft}, p.cipher.IsSound → c.IsUnderWay →
    Plan.markLast (c.remaining p.budget) = drafts →
    (p.pull n c).1.length = min n drafts.length ∧
      (p.pull n c).2.1 = p.startAt (nth p.nextSequence (p.pull n c).1.length) ∧
      ∀ j datagram, (p.pull n c).1[j]? = some datagram →
        ∃ d, drafts[j]? = some d ∧ p.Bears j c.timestamp d datagram
  | 0, p, c, drafts, _, _, _ => by
    refine ⟨(Nat.zero_min _).symm, ?_, fun j datagram h => by cases h⟩
    rw [pull, List.length_nil, Serial.nth_zero]
    rfl
  | n + 1, p, c, drafts, hc, hw, hd => by
    cases hs : c.step p.budget with
    | none =>
      have hr := (Cursor.step_eq_none_iff p.budget_piece_pos p.budget_whole_pos hw).1 hs
      rw [hr] at hd
      subst hd
      rw [pull, next_of_none hs]
      refine ⟨(Nat.min_zero _).symm, ?_, fun j datagram h => by cases h⟩
      rw [List.length_nil, Serial.nth_zero]
      rfl
    | some next =>
      obtain ⟨hm, hw', ht⟩ := Cursor.step_sendsFirst p.budget_piece_pos p.budget_whole_pos hw hs
      rw [hm] at hd
      subst hd
      obtain ⟨datagram, packet, hemit, hbears⟩ := parse_emit hc c.timestamp next.1
      have hnext := next_of_some hs
      rw [hemit] at hnext
      obtain ⟨hlength, hlast, hrest⟩ := pull_bears n (p.startAt (p.nextSequence + 1)) next.2 hc hw' rfl
      rw [pull_of_some hnext]
      have hon : p.Continues 1 (p.startAt (p.nextSequence + 1)) := (continues_self p).startAt 1
      refine ⟨?_, ?_, ?_⟩
      · rw [List.length_cons, List.length_cons, hlength, Nat.succ_min_succ]
        rfl
      · rw [hlast, hon.nth_eq, List.length_cons, Nat.add_comm]
        rfl
      · intro j datagram' hj
        cases j with
        | zero =>
          obtain rfl : datagram = datagram' := Option.some.inj hj
          rw [← Serial.nth_zero p.nextSequence] at hbears
          exact ⟨next.1, rfl, packet, hbears⟩
        | succ j =>
          obtain ⟨d, hd, hb⟩ := hrest j datagram' hj
          rw [ht] at hb
          exact ⟨d, hd, Nat.add_comm 1 j ▸ hon.bears hb⟩

/-- The packets of a unit that a packetizer goes on with. -/
theorem pull_begin (hc : p.cipher.IsSound) (hq : p.Continues k q) (u : AccessUnit) (n : Nat) :
    let pulled := (q.begin u).2.pull n (q.begin u).1
    pulled.1.length = min n (p.drafts u).length ∧ p.Continues (k + pulled.1.length) pulled.2.1 ∧
      ∀ j datagram, pulled.1[j]? = some datagram →
        ∃ d, (p.drafts u)[j]? = some d ∧ p.Bears (k + j) u.timestamp d datagram := by
  obtain ⟨s, t, hsets⟩ := foldl_capture (AnnexB.nalUnits u.bytes) q
  let c : Cursor := { timestamp := u.timestamp, nals := AnnexB.nalUnits u.bytes }
  have hbegin : q.begin u = (c, q.withSets s t) := Prod.ext rfl hsets
  have hon : p.Continues k (q.withSets s t) := hq.withSets s t
  have hdrafts : Plan.markLast (c.remaining (q.withSets s t).budget) = p.drafts u := by
    rw [Cursor.remaining_between rfl, ← hon.drafts]
    rfl
  obtain ⟨hlength, hlast, hbears⟩ :=
    pull_bears n (q.withSets s t) c (hon.cipher.symm ▸ hc) (fun body h => by cases h) hdrafts
  intro pulled
  have hpulled : pulled = (q.withSets s t).pull n c := by
    show (q.begin u).2.pull n (q.begin u).1 = _
    rw [hbegin]
  rw [hpulled]
  refine ⟨hlength, ?_, fun j datagram h => ?_⟩
  · rw [hlast]
    exact hon.startAt _
  · obtain ⟨d, hd, hb⟩ := hbears j datagram h
    exact ⟨d, hd, hon.bears hb⟩

theorem length_drafts_le (q : Packetizer) (u : AccessUnit) : (q.drafts u).length ≤ (q.begin u).1.weight := by
  have hlength := Cursor.length_remaining_le (c := (q.begin u).1) q.budget_piece_pos q.budget_whole_pos
    fun body h => by cases h
  rw [Cursor.remaining_between rfl] at hlength
  rw [drafts, Plan.drafts, Plan.length_markLast]
  exact hlength

end Packetizer

/-! ## Calls -/

namespace Sender

variable {σ : Type}

/-- A call of `send`: its unit, the datagrams that the sink was handed, and what the call returned. -/
structure Attempt where
  unit : AccessUnit
  offers : List Offer
  fault : Option Fault

def attempts (sink : Sink σ) : Sender × σ → List AccessUnit → List Attempt
  | _, [] => []
  | x, u :: rest =>
    ⟨u, x.1.offers sink x.2 u, (x.1.send sink x.2 u).fault⟩ :: attempts sink (perform sink x (.send u)) rest

/-- What comes of an attempt that begins at position `k` of a stream.  If it fails, the last of its datagrams is
refused. -/
structure Attempt.Runs (p : Packetizer) (k : Nat) (t : Attempt) : Prop where
  bears : ∀ j datagram, (accepted t.offers)[j]? = some datagram →
    ∃ d, (p.drafts t.unit)[j]? = some d ∧ p.Bears (k + j) t.unit.timestamp d datagram
  outcome :
    t.fault = none ∧ (accepted t.offers).length = t.offers.length ∧ t.offers.length = (p.drafts t.unit).length ∨
      t.fault ≠ none ∧ (accepted t.offers).length + 1 = t.offers.length ∧
        t.offers.length ≤ (p.drafts t.unit).length

def AllRun (p : Packetizer) : Nat → List Attempt → Prop
  | _, [] => True
  | k, t :: rest => t.Runs p k ∧ AllRun p (k + t.offers.length) rest

theorem accepted_of_all {offers : List Offer} (h : ∀ o ∈ offers, o.isAccepted = true) :
    accepted offers = offers.map Offer.datagram := by rw [accepted, List.filter_eq_self.2 h]

theorem accepted_of_refused {before : List Offer} {o : Offer} (h : ∀ o ∈ before, o.isAccepted = true)
    (ho : o.isAccepted = false) : accepted (before ++ [o]) = before.map Offer.datagram := by
  rw [accepted, List.filter_append, List.filter_eq_self.2 h, List.filter_cons_of_neg (Bool.not_eq_true _ ▸ ho),
    List.filter_nil, List.append_nil]

/-- **A call** hands over the first drafts of its unit, and the next one goes on behind its last datagram. -/
theorem runs_send {p : Packetizer} {k : Nat} (hc : p.cipher.IsSound) (sink : Sink σ) (s : Sender) (st : σ)
    (u : AccessUnit) (hs : p.Continues k s.packetizer) :
    Attempt.Runs p k ⟨u, s.offers sink st u, (s.send sink st u).fault⟩ ∧
      p.Continues (k + (s.offers sink st u).length) (s.send sink st u).sender.packetizer := by
  obtain ⟨-, hfails, hrefused, hfinished⟩ := ends_send s st u
  cases hfault : (s.send sink st u).fault with
  | none =>
    have hall : ∀ o ∈ s.offers sink st u, o.isAccepted = true := by
      intro o ho
      by_contra hno
      have hsome := hfails.2 ⟨o, ho, Bool.eq_false_iff.2 hno⟩
      rw [hfault] at hsome
      cases hsome
    obtain ⟨hlength, hon, hbears⟩ := Packetizer.pull_begin hc hs u (s.packetizer.begin u).1.weight
    have hdatagrams : ((s.packetizer.begin u).2.pull (s.packetizer.begin u).1.weight (s.packetizer.begin u).1).1 =
        (s.offers sink st u).map Offer.datagram := congrArg Prod.fst (hfinished hfault)
    have hpacketizer : ((s.packetizer.begin u).2.pull (s.packetizer.begin u).1.weight (s.packetizer.begin u).1).2.1 =
        (s.send sink st u).sender.packetizer := congrArg Prod.snd (hfinished hfault)
    rw [hdatagrams] at hlength hbears
    rw [hdatagrams, hpacketizer, List.length_map] at hon
    rw [List.length_map] at hlength
    have hweight := hs.drafts u ▸ s.packetizer.length_drafts_le u
    refine ⟨⟨?_, .inl ⟨rfl, ?_, ?_⟩⟩, hon⟩
    · rw [accepted_of_all hall]
      exact hbears
    · rw [accepted_of_all hall, List.length_map]
    · rw [hlength, Nat.min_eq_right hweight]
  | some fault =>
    obtain ⟨before, datagram, hoffers, hbefore, c', hpull⟩ := hrefused fault hfault
    have hall : ∀ o ∈ before, o.isAccepted = true := fun o ho => by rw [Offer.isAccepted, hbefore o ho]; rfl
    have haccepted : accepted (s.offers sink st u) = before.map Offer.datagram := by
      rw [hoffers, accepted_of_refused hall rfl]
    obtain ⟨hlength, hon, hbears⟩ := Packetizer.pull_begin hc hs u (s.offers sink st u).length
    rw [hpull] at hlength hon hbears
    rw [List.length_map] at hlength hon
    refine ⟨⟨fun j d hj => ?_, .inr ⟨by simp, ?_, ?_⟩⟩, hon⟩
    · refine hbears j d ?_
      rw [haccepted] at hj
      rw [hoffers, List.map_append, List.getElem?_append_left (List.getElem?_eq_some_iff.1 hj).1, hj]
    · rw [haccepted, hoffers, List.length_map, List.length_append]
      rfl
    · exact hlength ▸ Nat.min_le_right _ _

/-- **Over a run** every attempt goes on where the one before has stopped. -/
theorem allRun_attempts {p : Packetizer} (hc : p.cipher.IsSound) (sink : Sink σ) : ∀ (units : List AccessUnit) {k : Nat}
    (x : Sender × σ), p.Continues k x.1.packetizer → AllRun p k (attempts sink x units)
  | [], _, _, _ => trivial
  | u :: rest, k, x, h => by
    obtain ⟨hruns, hon⟩ := runs_send hc sink x.1 x.2 u h
    exact ⟨hruns, allRun_attempts hc sink rest (perform sink x (.send u)) hon⟩

end Sender
end VideoTransport
