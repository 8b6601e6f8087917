import VideoTransport.Proofs.Following
/-!
# Demand — packets on demand follow the plan

The packets of an access unit are made one at a time, as they are asked for.  However often one asks, the drafts of the
plan are tried in order, each under the number of its position, and what comes out are the packets of those that the
cipher lets out; the search for the last packet asked for is as far as the plan has been tried (`Packetizer.tried`).
`Packetizer.follows_plan` says so of every cipher and of any number of calls.
-/
namespace VideoTransport

open Serial (nth)

namespace Plan

variable {b : Budget}

/-- Every slice but the last one is full. -/
theorem length_slices {size : Nat} (hs : 0 < size) (data : Bytes) :
    (slices size data).length = (data.length + size - 1) / size := by
  by_cases h : data = []
  · subst h
    rw [show slices size [] = [] from rfl, List.length_nil, List.length_nil, Nat.div_eq_of_lt (by omega)]
  · have hpos := List.length_pos_iff.2 h
    have hless : (data.drop size).length < data.length := by
      rw [List.length_drop]
      omega
    rw [slices_cons hs h, List.length_cons, length_slices hs (data.drop size), List.length_drop]
    by_cases hfull : size ≤ data.length
    · rw [show data.length + size - 1 = data.length - size + size - 1 + size by omega, Nat.add_div_right _ hs]
    · rw [show data.length - size = 0 by omega, Nat.div_eq_of_lt (by omega),
        show data.length + size - 1 = data.length - 1 + size by omega, Nat.add_div_right _ hs,
        Nat.div_eq_of_lt (by omega)]
termination_by data.length

/-- **The number of packets of a NAL unit.** -/
theorem length_payloads (hp : 0 < b.piece) (nal : Bytes) :
    (payloads b nal).length =
      if nal.length ≤ b.whole then 1 else (nal.length - 1 + b.piece - 1) / b.piece := by
  split
  · rename_i h
    rw [payloads_whole h, List.length_singleton]
  · rename_i h
    cases nal with
    | nil => exact absurd (Nat.zero_le _) h
    | cons header body =>
      rw [payloads_cut (Nat.not_le.1 h), List.length_map, length_train, length_slices hp, List.length_cons,
        Nat.add_sub_cancel]

end Plan

namespace Packetizer

/-! ## What becomes of a draft -/

/-- The packet of a draft under a number; there is none if the cipher fails, or exceeds its overhead. -/
def packet? (p : Packetizer) (timestamp : UInt32) (sequence : Serial) (d : Draft) : Option Bytes :=
  match p.cipher.encrypt ⟨timestamp, sequence, p.ssrc, d.marker⟩ d.payload with
  | .error _ => none
  | .ok cover =>
    if cover.length ≤ d.payload.length + p.cipher.overhead then
      some (Rtp.Header.write ⟨d.marker, p.payloadType, sequence, timestamp, p.ssrc⟩ ++ cover)
    else none

/-- What becomes of the drafts of a unit, each under the number of its position. -/
def fates (p : Packetizer) (u : AccessUnit) : List (Option Bytes) :=
  (p.drafts u).mapIdx fun i d => p.packet? u.timestamp (nth p.nextSequence i) d

/-- How many drafts are tried until `k` packets have come out: up to the last of these, and all if there are fewer. -/
def tried : Nat → List (Option Bytes) → Nat
  | 0, _ => 0
  | _, [] => 0
  | k + 1, none :: rest => tried (k + 1) rest + 1
  | k + 1, some _ :: rest => tried k rest + 1

/-- The results of `k` calls of `next`, one after another, whatever they return. -/
def ask : Nat → Packetizer → Cursor → List (Option Bytes) × Packetizer × Cursor
  | 0, p, c => ([], p, c)
  | k + 1, p, c =>
    let (result, p, c) := p.next c
    let (results, p, c) := ask k p c
    (result :: results, p, c)

variable {p : Packetizer} {c c' : Cursor}

theorem emit_startAt (p : Packetizer) (timestamp : UInt32) (sequence : Serial) (d : Draft) :
    ((p.startAt sequence).emit timestamp d).1 = p.packet? timestamp sequence d := by
  unfold emit packet?
  dsimp only [startAt, SerialCounter.next, Rtp.Header.packetMeta]
  cases p.cipher.encrypt ⟨timestamp, sequence, p.ssrc, d.marker⟩ d.payload with
  | error _ => rfl
  | ok cover => simp only [← Nat.not_le, ite_not]

theorem issue_plan (p : Packetizer) (u : AccessUnit) : p.issue (p.plan u) = p.fates u := by
  refine List.ext_getElem? fun i => ?_
  rw [getElem?_issue, fates, List.getElem?_mapIdx, plan, List.getElem?_map, Option.map_map]
  exact Option.map_congr fun d _ => p.emit_startAt u.timestamp _ d

/-! ## How far the plan has been tried -/

@[simp] theorem tried_zero (fates : List (Option Bytes)) : tried 0 fates = 0 := by
  unfold tried
  rfl

/-- What has come out is what the cipher has let out of the drafts tried. -/
theorem filterMap_take_tried : ∀ (k : Nat) (fates : List (Option Bytes)),
    (fates.take (tried k fates)).filterMap id = (fates.filterMap id).take k
  | 0, fates => by
    rw [tried_zero]
    rfl
  | k + 1, [] => rfl
  | k + 1, none :: rest => filterMap_take_tried (k + 1) rest
  | k + 1, some packet :: rest => congrArg (packet :: ·) (filterMap_take_tried k rest)

/-- Who asks for more packets than there are has the whole plan tried. -/
theorem tried_of_lt : ∀ (k : Nat) (fates : List (Option Bytes)), (fates.filterMap id).length < k →
    tried k fates = fates.length
  | 0, _, h => absurd h (Nat.not_lt_zero _)
  | _ + 1, [], _ => rfl
  | k + 1, none :: rest, h => congrArg (· + 1) (tried_of_lt (k + 1) rest h)
  | k + 1, some _ :: rest, h => congrArg (· + 1) (tried_of_lt k rest (Nat.lt_of_succ_lt_succ h))

/-- The draft tried last is the one whose packet has come out last. -/
theorem getElem?_tried : ∀ (k : Nat) (fates : List (Option Bytes)), k < (fates.filterMap id).length →
    ∃ packet, tried (k + 1) fates ≠ 0 ∧ fates[tried (k + 1) fates - 1]? = some (some packet) ∧
      (fates.filterMap id)[k]? = some packet
  | k, none :: rest, h => by
    obtain ⟨packet, hpos, hlast, hout⟩ := getElem?_tried k rest h
    refine ⟨packet, Nat.succ_ne_zero _, ?_, hout⟩
    rw [tried, Nat.add_sub_cancel, ← Nat.succ_pred_eq_of_ne_zero hpos, List.getElem?_cons_succ]
    exact hlast
  | 0, some packet :: rest, _ => by
    refine ⟨packet, Nat.succ_ne_zero _, ?_, rfl⟩
    rw [tried, tried_zero]
    rfl
  | k + 1, some first :: rest, h => by
    obtain ⟨packet, hpos, hlast, hout⟩ := getElem?_tried k rest (Nat.lt_of_succ_lt_succ h)
    refine ⟨packet, Nat.succ_ne_zero _, ?_, hout⟩
    rw [tried, Nat.add_sub_cancel, ← Nat.succ_pred_eq_of_ne_zero hpos, List.getElem?_cons_succ]
    exact hlast

/-- The search ends with the last packet asked for, or with the plan. -/
theorem tried_ends (k : Nat) (fates : List (Option Bytes)) :
    if (fates.filterMap id).length < k then tried k fates = fates.length
    else k = 0 ∨ fates[tried k fates - 1]? = some (fates.filterMap id)[k - 1]? := by
  split
  · rename_i hmore
    exact tried_of_lt k fates hmore
  · rename_i hfew
    cases k with
    | zero => exact .inl rfl
    | succ k =>
      obtain ⟨packet, -, hlast, hout⟩ := getElem?_tried k fates (Nat.lt_of_succ_le (Nat.not_lt.1 hfew))
      rw [Nat.add_sub_cancel, hout]
      exact .inr hlast

/-! ## Asking -/

theorem ask_of_none (h : p.next c = (none, p, c)) : ∀ k, p.ask k c = (List.replicate k none, p, c)
  | 0 => rfl
  | k + 1 => by
    rw [ask, h]
    simp only [ask_of_none h k]
    rfl

/-- **Asking any number of times tries what remains, in order**, and yields what the cipher lets out. -/
theorem ask_remaining : ∀ (drafts : List Draft) (k : Nat) (p : Packetizer) (c : Cursor), c.IsUnderWay →
    Plan.markLast (c.remaining p.budget) = drafts →
    let fates := p.issue (drafts.map (c.timestamp, ·))
    let packets := fates.filterMap id
    let left := (p.ask k c).2
    (p.ask k c).1 = (packets.take k).map some ++ List.replicate (k - packets.length) none ∧
      left.1 = p.startAt (nth p.nextSequence (tried k fates)) ∧ left.2.IsUnderWay ∧
      Plan.markLast (left.2.remaining p.budget) = drafts.drop (tried k fates)
  | drafts, 0, p, c, hc, hd => by
    simp only [tried_zero, Serial.nth_zero, Nat.zero_sub]
    exact ⟨rfl, rfl, hc, hd⟩
  | [], k + 1, p, c, hc, hd => by
    have hr : c.remaining p.budget = [] := by
      have := congrArg List.length hd
      rw [Plan.length_markLast] at this
      exact List.length_eq_zero_iff.1 this
    have hnext := next_of_none ((Cursor.step_eq_none_iff p.budget_piece_pos p.budget_whole_pos hc).2 hr)
    rw [ask_of_none hnext]
    refine ⟨rfl, ?_, hc, hd⟩
    rw [show tried (k + 1) (p.issue (([] : List Draft).map (c.timestamp, ·))) = 0 from rfl, Serial.nth_zero]
    rfl
  | d :: rest, k + 1, p, c, hc, hd => by
    cases hs : c.step p.budget with
    | none =>
      rw [Cursor.step_eq_none hs] at hd
      cases hd
    | some next =>
      obtain ⟨hm, hc', ht⟩ := Cursor.step_sendsFirst p.budget_piece_pos p.budget_whole_pos hc hs
      rw [hm] at hd
      obtain ⟨rfl, hd'⟩ := List.cons.inj hd
      have hon : ∀ n, nth (p.startAt (p.nextSequence + 1)).nextSequence n = nth p.nextSequence (n + 1) := fun n => by
        show nth (nth p.nextSequence 1) n = _
        rw [Serial.nth_nth, Nat.add_comm]
      have hnext := next_of_some hs
      rw [List.map_cons, issue, ← ht]
      rw [← ht] at hnext
      cases he : (p.emit next.2.timestamp next.1).1 with
      | none =>
        -- A number is used up and the search goes on for as many packets as before.
        rw [he] at hnext
        obtain ⟨hresults, hleft, hunder, hremaining⟩ :=
          ask_remaining rest (k + 1) (p.startAt (p.nextSequence + 1)) next.2 hc' hd'
        have hask : p.ask (k + 1) c = (p.startAt (p.nextSequence + 1)).ask (k + 1) next.2 := by rw [ask, hnext, ask]
        rw [hon] at hleft
        rw [hask]
        exact ⟨hresults, hleft, hunder, hremaining⟩
      | some packet =>
        rw [he] at hnext
        obtain ⟨hresults, hleft, hunder, hremaining⟩ :=
          ask_remaining rest k (p.startAt (p.nextSequence + 1)) next.2 hc' hd'
        rw [hon] at hleft
        rw [ask, hnext]
        dsimp only
        refine ⟨?_, hleft, hunder, hremaining⟩
        have hcons : ∀ l : List (Option Bytes), (some packet :: l).filterMap id = packet :: l.filterMap id :=
          fun _ => rfl
        rw [hresults, emit_snd, hcons, List.take_succ_cons, List.map_cons, List.cons_append, List.length_cons,
          Nat.add_sub_add_right]

theorem ask_begin (p : Packetizer) (u : AccessUnit) (k : Nat) :
    let packets := (p.fates u).filterMap id
    let asked := (p.begin u).2.ask k (p.begin u).1
    asked.1 = (packets.take k).map some ++ List.replicate (k - packets.length) none ∧
      asked.2.1.nextSequence = nth p.nextSequence (tried k (p.fates u)) ∧
      Plan.markLast (asked.2.2.remaining p.budget) = (p.drafts u).drop (tried k (p.fates u)) := by
  obtain ⟨s, t, hsets⟩ := foldl_capture (AnnexB.nalUnits u.bytes) p
  have hbegin : p.begin u = ({ timestamp := u.timestamp, nals := AnnexB.nalUnits u.bytes }, p.withSets s t) :=
    Prod.ext rfl hsets
  have hplan : ({ timestamp := u.timestamp, nals := AnnexB.nalUnits u.bytes } : Cursor).remaining p.budget =
      (AnnexB.nalUnits u.bytes).flatMap (Plan.payloads p.budget) := Cursor.remaining_between rfl
  have hfates : (p.withSets s t).issue ((p.drafts u).map (u.timestamp, ·)) = p.fates u :=
    (p.issue_withSets s t _).trans (p.issue_plan u)
  obtain ⟨hresults, hleft, -, hremaining⟩ := ask_remaining (p.drafts u) k (p.withSets s t)
    { timestamp := u.timestamp, nals := AnnexB.nalUnits u.bytes } (fun body h => by cases h)
    (congrArg Plan.markLast hplan)
  rw [hfates] at hresults hleft hremaining
  rw [hbegin]
  exact ⟨hresults, congrArg nextSequence hleft, hremaining⟩

/-- Once there is no packet any more, asking again changes nothing. -/
theorem next_exhausted {p p' : Packetizer} {c c' : Cursor} (h : p.next c = (none, p', c')) :
    p'.next c' = (none, p', c') := by
  rw [next] at h
  split at h
  · rename_i hstep
    cases h
    exact next_of_none hstep
  · rename_i d c'' hstep
    have hweight := Cursor.step_weight p.budget_piece_pos hstep
    split at h
    · cases h
    · exact next_exhausted h
termination_by c.weight

theorem pull_eq_ask : ∀ (k : Nat) (p : Packetizer) (c : Cursor),
    p.pull k c = ((p.ask k c).1.filterMap id, (p.ask k c).2)
  | 0, _, _ => rfl
  | k + 1, p, c => by
    rw [pull, ask]
    rcases hnext : p.next c with ⟨_ | packet, p', c'⟩
    · have hnone : ∀ n, (List.replicate n (none : Option Bytes)).filterMap id = [] := fun n => by
        rw [List.filterMap_replicate_of_none rfl]
      simp only [ask_of_none (next_exhausted hnext), ← List.replicate_succ, hnone]
    · simp only [pull_eq_ask k p' c']
      rfl

/-! ## The plan -/

/-- **Packets on demand.**  The plan of a unit has one packet for each NAL unit that fits into one, as many as its body
has pieces for any other, and the marker on the last packet only.  However often one asks for packets, the drafts tried
are the first ones of the plan, up to the one whose packet comes out last, or all of them if there are fewer packets
than asked for.  Each takes the number of its position, whether the cipher lets it out or not, and so the next number
is the first one not tried.  What comes out are the packets let out, in order, and nothing more once the plan is
through; the packets pulled are the first ones of all packets. -/
theorem follows_plan (p : Packetizer) (u : AccessUnit) :
    let plan := p.drafts u
    let fates := p.fates u
    let packets := fates.filterMap id
    (plan.map Draft.payload = (AnnexB.nalUnits u.bytes).flatMap (Plan.payloads p.budget) ∧
      (∀ nal, (Plan.payloads p.budget nal).length =
        if nal.length ≤ p.mtu - 12 - p.cipher.overhead then 1
        else (nal.length - 1 + (p.mtu - 14 - p.cipher.overhead) - 1) / (p.mtu - 14 - p.cipher.overhead)) ∧
      ∀ i d, plan[i]? = some d → (d.marker = true ↔ i + 1 = plan.length)) ∧
    ((p.packets u).1 = packets ∧ (p.packets u).2.nextSequence = nth p.nextSequence plan.length) ∧
    ∀ k,
      let asked := (p.begin u).2.ask k (p.begin u).1
      let count := tried k fates
      asked.1 = (packets.take k).map some ++ List.replicate (k - packets.length) none ∧
      asked.1.filterMap id = (fates.take count).filterMap id ∧
      asked.2.1.nextSequence = nth p.nextSequence count ∧
      Plan.markLast (asked.2.2.remaining p.budget) = plan.drop count ∧
      (if packets.length < k then count = plan.length else k = 0 ∨ fates[count - 1]? = some packets[k - 1]?) ∧
      ((p.begin u).2.pull k (p.begin u).1).1 = packets.take k := by
  intro plan fates packets
  refine ⟨⟨Plan.payload_markLast _, fun nal => ?_, fun i d h => ?_⟩, ?_, fun k => ?_⟩
  · rw [Plan.length_payloads p.budget_piece_pos]
    rfl
  · rw [Plan.marker_markLast h]
    show _ ↔ i + 1 = (Plan.markLast _).length
    rw [Plan.length_markLast]
  · obtain ⟨s, t, hpackets⟩ := p.packets_eq u
    rw [hpackets, issue_plan, length_plan]
    exact ⟨rfl, rfl⟩
  · intro asked count
    obtain ⟨hresults, hnext, hremaining⟩ := p.ask_begin u k
    have hcome : asked.1.filterMap id = packets.take k := by
      rw [hresults, List.filterMap_append, List.filterMap_replicate_of_none rfl, List.append_nil, List.filterMap_map]
      exact List.filterMap_some
    have hlength : fates.length = plan.length := List.length_mapIdx
    have hends := tried_ends k fates
    rw [hlength] at hends
    refine ⟨hresults, hcome.trans (filterMap_take_tried k fates).symm, hnext, hremaining, hends, ?_⟩
    rw [pull_eq_ask]
    exact hcome

/-- A packetizer at the last numbers but one, with room for five octets, whose cipher fails on the last number. -/
def skipping : Packetizer where
  payloadType := 96
  ssrc := 1
  mtu := 17
  cipher :=
    { encrypt m data := if m.sequence = 65535 then .error "" else .ok data
      decrypt _ data := .ok data }
  counter := ⟨65534⟩
  room := by decide

/-- Of three packets the second is kept back.  Who asks three times gets the others and nothing more, and the numbers go
on behind all three. -/
theorem follows_plan_skipping :
    let u : AccessUnit := .assembled 9 [[0x67, 0x42], [0x65, 0x88, 1, 2, 3, 4, 5]]
    let whole : Bytes := [0x80, 0x60, 0xff, 0xfe, 0, 0, 0, 9, 0, 0, 0, 1, 0x67, 0x42]
    let last : Bytes := [0x80, 0xe0, 0, 0, 0, 0, 0, 9, 0, 0, 0, 1, 0x7c, 0x45, 3, 4, 5]
    let asked := (skipping.begin u).2.ask 3 (skipping.begin u).1
    ((skipping.fates u).filterMap id).length < 3 ∧ asked.1 = [some whole, some last, none] ∧
      asked.2.1.nextSequence = 1 := by
  intro u whole last asked
  have hfates : skipping.fates u = [some whole, none, some last] := by decide +kernel
  have hplan : (skipping.drafts u).length = 3 := by decide +kernel
  obtain ⟨hresults, -, hnext, -, hcount, -⟩ := (follows_plan skipping u).2.2 3
  have hmore : ((skipping.fates u).filterMap id).length < 3 := by
    rw [hfates]
    decide
  rw [if_pos hmore, hplan] at hcount
  rw [hcount] at hnext
  rw [hfates] at hresults
  exact ⟨hmore, hresults, hnext⟩

end Packetizer
end VideoTransport
