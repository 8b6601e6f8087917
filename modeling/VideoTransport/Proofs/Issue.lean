import VideoTransport.Outbound.Packetizer
import VideoTransport.Proofs.Fragmentation
import VideoTransport.Proofs.Position
/-!
# Issue — the packets of access units are their plan, numbered

A packetizer makes packets lazily, one NAL unit and one fragment at a time.  All packets of an access unit are the
drafts of `Plan.drafts`, each with the next number, less those that the cipher keeps back (`packets_eq`).  So what
becomes of the number at a position depends only on the draft at this position (`getElem?_issue`).
-/
namespace VideoTransport

namespace Plan

theorem markLast_cons (payload : Bytes) (rest : List Bytes) :
    markLast (payload :: rest) = ⟨rest.isEmpty, payload⟩ :: markLast rest := by
  cases rest <;> rfl

@[simp] theorem length_markLast : ∀ payloads : List Bytes, (markLast payloads).length = payloads.length
  | [] => rfl
  | payload :: rest => by rw [markLast_cons, List.length_cons, length_markLast rest, List.length_cons]

variable {b : Budget}

theorem payloads_ne_nil (hp : 0 < b.piece) (hw : 0 < b.whole) (nal : Bytes) : payloads b nal ≠ [] := by
  by_cases hl : nal.length ≤ b.whole
  · rw [payloads_whole hl]
    exact List.cons_ne_nil nal []
  · cases nal with
    | nil => exact absurd (Nat.zero_le _) hl
    | cons header body =>
      have hb : body ≠ [] := by
        rintro rfl
        exact hl hw
      rw [payloads_cut (Nat.not_le.1 hl), slices_cons hp hb]
      exact List.cons_ne_nil _ _

theorem isEmpty_flatMap_payloads (hp : 0 < b.piece) (hw : 0 < b.whole) (nals : List Bytes) :
    (nals.flatMap (payloads b)).isEmpty = nals.isEmpty := by
  cases nals with
  | nil => rfl
  | cons nal rest =>
    rw [List.flatMap_cons, List.isEmpty_cons, List.isEmpty_eq_false_iff]
    exact List.append_ne_nil_of_left_ne_nil (payloads_ne_nil hp hw nal) _

theorem isEmpty_slices {size : Nat} (hs : 0 < size) (data : Bytes) : (slices size data).isEmpty = data.isEmpty := by
  rw [Bool.eq_iff_iff, List.isEmpty_iff, List.isEmpty_iff, slices_eq_nil_iff hs]

end Plan

namespace Packetizer

theorem budget_whole_pos (p : Packetizer) : 0 < p.budget.whole := by
  have := p.room
  simp only [budget, Rtp.headerLength, Fragment.headerLength] at this ⊢
  omega

/-! ## What a cursor has still to send -/

namespace Cursor

def remaining (b : Budget) (c : Cursor) : List Bytes :=
  match c.nals with
  | [] => []
  | nal :: later =>
    (match c.rest with
      | none => Plan.payloads b nal
      | some body => (Plan.train (nal.headD 0) false (Plan.slices b.piece body)).map Fragment.write) ++
    later.flatMap (Plan.payloads b)

/-- A NAL unit that has been cut is not finished. -/
def IsUnderWay (c : Cursor) : Prop := ∀ body, c.rest = some body → body ≠ []

variable {b : Budget} {c c' : Cursor} {d : Draft}

theorem remaining_between (h : c.rest = none) : c.remaining b = c.nals.flatMap (Plan.payloads b) := by
  unfold remaining
  rw [h]
  cases c.nals <;> rfl

theorem remaining_within {nal body : Bytes} {later : List Bytes} (hn : c.nals = nal :: later) (h : c.rest = some body) :
    c.remaining b =
      (Plan.train (nal.headD 0) false (Plan.slices b.piece body)).map Fragment.write ++
        later.flatMap (Plan.payloads b) := by
  unfold remaining
  rw [hn, h]

theorem stepPiece_last (header : UInt8) (isFirst : Bool) {body : Bytes} (later : List Bytes)
    (h : body.drop b.piece = []) :
    stepPiece b c header isFirst body later =
      (⟨later.isEmpty, Fragment.write ⟨header, Nal.typeOf header, isFirst, true, body.take b.piece⟩⟩,
        { c with nals := later, rest := none }) := by
  simp [stepPiece, cutPiece, h]

theorem stepPiece_more (header : UInt8) (isFirst : Bool) {body : Bytes} (later : List Bytes)
    (h : body.drop b.piece ≠ []) :
    stepPiece b c header isFirst body later =
      (⟨false, Fragment.write ⟨header, Nal.typeOf header, isFirst, false, body.take b.piece⟩⟩,
        { c with rest := some (body.drop b.piece) }) := by
  have hf := List.isEmpty_eq_false_iff.2 h
  simp only [stepPiece, cutPiece, hf, Bool.and_false, Bool.false_eq_true, if_false]

/-- What a step must do to what remains: send its first packet, leave the others and keep the time. -/
def SendsFirst (b : Budget) (c : Cursor) (payloads : List Bytes) (next : Draft × Cursor) : Prop :=
  Plan.markLast payloads = next.1 :: Plan.markLast (next.2.remaining b) ∧ next.2.IsUnderWay ∧
    next.2.timestamp = c.timestamp

theorem stepPiece_sendsFirst (hp : 0 < b.piece) (hw : 0 < b.whole) {nal body : Bytes} {later : List Bytes}
    (hn : c.nals = nal :: later) (hb : body ≠ []) (isFirst : Bool) :
    SendsFirst b c ((Plan.train (nal.headD 0) isFirst (Plan.slices b.piece body)).map Fragment.write ++
        later.flatMap (Plan.payloads b)) (stepPiece b c (nal.headD 0) isFirst body later) := by
  rw [Plan.slices_cons hp hb, Plan.train, List.map_cons, List.cons_append, Plan.isEmpty_slices hp, SendsFirst,
    Plan.markLast_cons]
  by_cases hl : body.drop b.piece = []
  · have hr : ({ c with nals := later, rest := none } : Cursor).remaining b = later.flatMap (Plan.payloads b) :=
      remaining_between rfl
    rw [stepPiece_last _ _ later hl, hr, hl]
    refine ⟨?_, fun body h => (by cases h), rfl⟩
    rw [← Plan.isEmpty_flatMap_payloads hp hw later]
    rfl
  · have hr : ({ c with rest := some (body.drop b.piece) } : Cursor).remaining b = _ := remaining_within hn rfl
    rw [stepPiece_more _ _ later hl, hr, List.isEmpty_eq_false_iff.2 hl]
    refine ⟨?_, fun body h => (by cases h; exact hl), rfl⟩
    rw [Plan.slices_cons hp hl]
    rfl

theorem step_whole (hp : 0 < b.piece) (hw : 0 < b.whole) {nal : Bytes} {later : List Bytes} (hr : c.rest = none)
    (hl : nal.length ≤ b.whole) :
    SendsFirst b c ((nal :: later).flatMap (Plan.payloads b)) (⟨later.isEmpty, nal⟩, { c with nals := later }) := by
  have hrest : ({ c with nals := later } : Cursor).remaining b = later.flatMap (Plan.payloads b) :=
    remaining_between hr
  rw [List.flatMap_cons, Plan.payloads_whole hl, List.singleton_append, SendsFirst, Plan.markLast_cons,
    Plan.isEmpty_flatMap_payloads hp hw, hrest]
  exact ⟨rfl, fun body h => (by rw [hr] at h; cases h), rfl⟩

/-- **A step sends the first packet of what remains.** -/
theorem step_sendsFirst (hp : 0 < b.piece) (hw : 0 < b.whole) (hc : c.IsUnderWay) {next : Draft × Cursor}
    (h : c.step b = some next) : SendsFirst b c (c.remaining b) next := by
  unfold step at h
  split at h
  · cases h
  rename_i nal later hn
  split at h
  · rename_i body hr
    obtain rfl := Option.some.inj h
    rw [remaining_within hn hr]
    exact stepPiece_sendsFirst hp hw hn (hc body hr) false
  · rename_i hr
    rw [remaining_between hr, hn]
    split at h
    · rename_i hl
      obtain rfl := Option.some.inj h
      exact step_whole hp hw hr hl
    · rename_i hl
      obtain rfl := Option.some.inj h
      cases nal with
      | nil => exact absurd (Nat.zero_le _) hl
      | cons header body =>
        have hb : body ≠ [] := by
          rintro rfl
          exact hl hw
        rw [List.flatMap_cons, Plan.payloads_cut (Nat.not_le.1 hl)]
        exact stepPiece_sendsFirst hp hw hn hb true

theorem step_eq_none (h : c.step b = none) : c.remaining b = [] := by
  unfold step at h
  split at h
  · rename_i hn
    unfold remaining
    rw [hn]
  · split at h
    · cases h
    · split at h <;> cases h

theorem step_eq_none_iff (hp : 0 < b.piece) (hw : 0 < b.whole) (hc : c.IsUnderWay) :
    c.step b = none ↔ c.remaining b = [] := by
  refine ⟨step_eq_none, fun hr => ?_⟩
  cases h : c.step b with
  | none => rfl
  | some next =>
    have hm := (step_sendsFirst hp hw hc h).1
    rw [hr] at hm
    cases hm

/-- What remains is no more than the bound by which steps go down. -/
theorem length_remaining_le (hp : 0 < b.piece) (hw : 0 < b.whole) {c : Cursor} (hc : c.IsUnderWay) :
    (c.remaining b).length ≤ c.weight := by
  cases h : c.step b with
  | none => rw [step_eq_none h]; exact Nat.zero_le _
  | some next =>
    have hlt := step_weight hp h
    obtain ⟨hm, hc', -⟩ := step_sendsFirst hp hw hc h
    have ih := length_remaining_le hp hw hc'
    have hlen := congrArg List.length hm
    simp only [Plan.length_markLast, List.length_cons] at hlen
    omega
termination_by c.weight

end Cursor

/-! ## Numbers -/

open Serial (nth)

/-- What becomes of drafts, one number each: a packet, or nothing where the cipher keeps it back. -/
def issue (p : Packetizer) : List (UInt32 × Draft) → List (Option Bytes)
  | [] => []
  | (timestamp, d) :: rest => (p.emit timestamp d).1 :: issue (p.emit timestamp d).2 rest

theorem emit_snd (p : Packetizer) (timestamp : UInt32) (d : Draft) :
    (p.emit timestamp d).2 = p.startAt (p.nextSequence + 1) := rfl

@[simp] theorem length_issue : ∀ (drafts : List (UInt32 × Draft)) (p : Packetizer),
    (p.issue drafts).length = drafts.length
  | [], _ => rfl
  | _ :: rest, p => by rw [issue, List.length_cons, length_issue rest, List.length_cons]

theorem issue_append : ∀ (drafts more : List (UInt32 × Draft)) (p : Packetizer),
    p.issue (drafts ++ more) = p.issue drafts ++ (p.startAt (nth p.nextSequence drafts.length)).issue more
  | [], more, p => by
    rw [List.length_nil, Serial.nth_zero]
    rfl
  | d :: rest, more, p => by
    have hn : nth ((p.emit d.1 d.2).2).nextSequence rest.length = nth p.nextSequence (rest.length + 1) := by
      show nth (nth p.nextSequence 1) rest.length = _
      rw [Serial.nth_nth, Nat.add_comm]
    rw [List.cons_append, issue, issue_append rest more, hn, issue]
    rfl

/-- **What becomes of a number depends only on the draft at its position.** -/
theorem getElem?_issue : ∀ (drafts : List (UInt32 × Draft)) (p : Packetizer) (i : Nat),
    (p.issue drafts)[i]? = drafts[i]?.map fun d => ((p.startAt (nth p.nextSequence i)).emit d.1 d.2).1
  | [], _, _ => rfl
  | d :: rest, p, 0 => by
    rw [Serial.nth_zero]
    rfl
  | d :: rest, p, i + 1 => by
    have hn : nth ((p.emit d.1 d.2).2).nextSequence i = nth p.nextSequence (i + 1) := by
      show nth (nth p.nextSequence 1) i = _
      rw [Serial.nth_nth, Nat.add_comm]
    rw [issue, List.getElem?_cons_succ, getElem?_issue rest, List.getElem?_cons_succ, hn]
    rfl

/-! ## The packets of a unit -/

/-- The packets of an access unit before they are numbered and encrypted. -/
def drafts (p : Packetizer) (u : AccessUnit) : List Draft := Plan.drafts p.budget (AnnexB.nalUnits u.bytes)

def plan (p : Packetizer) (u : AccessUnit) : List (UInt32 × Draft) := (p.drafts u).map (u.timestamp, ·)

theorem next_of_none {p : Packetizer} {c : Cursor} (h : c.step p.budget = none) : p.next c = (none, p, c) := by
  rw [next]
  split
  · rfl
  · rename_i h'
    rw [h] at h'
    cases h'

theorem next_of_some {p : Packetizer} {c c' : Cursor} {d : Draft} (h : c.step p.budget = some (d, c')) :
    p.next c = match (p.emit c.timestamp d).1 with
      | some packet => (some packet, p.startAt (p.nextSequence + 1), c')
      | none => (p.startAt (p.nextSequence + 1)).next c' := by
  rw [next]
  split
  · rename_i h'
    rw [h] at h'
    cases h'
  · rename_i d' c'' h'
    rw [h] at h'
    cases h'
    rw [← p.emit_snd c.timestamp d]
    split <;> rename_i he <;> rw [he]

/-- **Pulling as many packets as remain makes what remains into packets.** -/
theorem pull_remaining : ∀ (drafts : List Draft) (n : Nat) (p : Packetizer) (c : Cursor), c.IsUnderWay →
    Plan.markLast (c.remaining p.budget) = drafts → drafts.length ≤ n →
    (p.pull n c).1 = (p.issue (drafts.map (c.timestamp, ·))).filterMap id ∧
      (p.pull n c).2.1 = p.startAt (nth p.nextSequence drafts.length)
  | [], n, p, c, hc, hd, _ => by
    have hr : c.remaining p.budget = [] := by
      have := congrArg List.length hd
      rw [Plan.length_markLast] at this
      exact List.length_eq_zero_iff.1 this
    have hnext := next_of_none ((Cursor.step_eq_none_iff p.budget_piece_pos p.budget_whole_pos hc).2 hr)
    rw [List.length_nil, Serial.nth_zero]
    cases n with
    | zero => exact ⟨rfl, rfl⟩
    | succ n =>
      rw [pull, hnext]
      exact ⟨rfl, rfl⟩
  | d :: rest, n, p, c, hc, hd, hn => by
    obtain ⟨n, rfl⟩ : ∃ k, n = k + 1 := ⟨n - 1, by rw [List.length_cons] at hn; omega⟩
    rw [List.length_cons] at hn
    cases hs : c.step p.budget with
    | none =>
      rw [(Cursor.step_eq_none_iff p.budget_piece_pos p.budget_whole_pos hc).1 hs] at hd
      cases hd
    | some next =>
      obtain ⟨hm, hc', ht⟩ := Cursor.step_sendsFirst p.budget_piece_pos p.budget_whole_pos hc hs
      rw [hm] at hd
      obtain ⟨rfl, hd'⟩ := List.cons.inj hd
      have hstart : nth (p.startAt (p.nextSequence + 1)).nextSequence rest.length =
          nth p.nextSequence (rest.length + 1) := by
        show nth (nth p.nextSequence 1) rest.length = _
        rw [Serial.nth_nth, Nat.add_comm]
      have hnext := next_of_some hs
      rw [List.map_cons, issue, List.length_cons, ← hstart]
      cases he : (p.emit c.timestamp next.1).1 with
      | none =>
        -- The number is used up and the search goes on with as many pulls as before.
        rw [he] at hnext
        have ih := pull_remaining rest (n + 1) (p.startAt (p.nextSequence + 1)) next.2 hc' hd' (by omega)
        rw [ht] at ih
        rw [pull] at ih
        rw [pull, hnext]
        exact ih
      | some packet =>
        rw [he] at hnext
        have ih := pull_remaining rest n (p.startAt (p.nextSequence + 1)) next.2 hc' hd' (by omega)
        rw [ht] at ih
        rw [pull, hnext]
        exact ⟨congrArg (packet :: ·) ih.1, ih.2⟩

/-! ## Access units one after another -/

/-- The packetizer with other parameter sets, which no packet depends on. -/
def withSets (p : Packetizer) (s t : Option Bytes) : Packetizer := { p with sequenceSet := s, pictureSet := t }

theorem foldl_capture : ∀ (nals : List Bytes) (p : Packetizer), ∃ s t, nals.foldl capture p = p.withSets s t
  | [], p => ⟨p.sequenceSet, p.pictureSet, rfl⟩
  | nal :: rest, p => by
    obtain ⟨s, t, hr⟩ := foldl_capture rest (p.capture nal)
    exact ⟨s, t, by rw [List.foldl_cons, hr]; rfl⟩

theorem issue_withSets (s t : Option Bytes) : ∀ (drafts : List (UInt32 × Draft)) (p : Packetizer),
    (p.withSets s t).issue drafts = p.issue drafts
  | [], _ => rfl
  | d :: rest, p => by
    rw [issue, issue, ← issue_withSets s t rest (p.emit d.1 d.2).2]
    rfl

/-- **The packets of an access unit are its plan, numbered**, less those that the cipher keeps back. -/
theorem packets_eq (p : Packetizer) (u : AccessUnit) : ∃ s t,
    p.packets u = ((p.issue (p.plan u)).filterMap id,
      (p.startAt (nth p.nextSequence (p.plan u).length)).withSets s t) := by
  obtain ⟨s, t, hs⟩ := foldl_capture (AnnexB.nalUnits u.bytes) p
  refine ⟨s, t, ?_⟩
  let c : Cursor := { timestamp := u.timestamp, nals := AnnexB.nalUnits u.bytes }
  have hc : c.IsUnderWay := fun body h => by cases h
  have hlen : (Plan.markLast (c.remaining p.budget)).length ≤ c.weight := by
    rw [Plan.length_markLast]
    exact Cursor.length_remaining_le p.budget_piece_pos p.budget_whole_pos hc
  obtain ⟨h1, h2⟩ := pull_remaining _ c.weight (p.withSets s t) c hc rfl hlen
  have hplan : (Plan.markLast (c.remaining p.budget)).map (c.timestamp, ·) = p.plan u := by
    rw [Cursor.remaining_between rfl]
    rfl
  have hpk : p.packets u = (((p.withSets s t).pull c.weight c).1, ((p.withSets s t).pull c.weight c).2.1) := by
    show ((((AnnexB.nalUnits u.bytes).foldl capture p).pull c.weight c).1,
      (((AnnexB.nalUnits u.bytes).foldl capture p).pull c.weight c).2.1) = _
    rw [hs]
  rw [hpk, h1, h2, issue_withSets]
  refine Prod.ext ?_ ?_
  · exact congrArg (fun l => (p.issue l).filterMap id) hplan
  · rw [← hplan, List.length_map]
    rfl

/-- All packets of access units that are packetized one after another. -/
def packetsOf : Packetizer → List AccessUnit → List Bytes
  | _, [] => []
  | p, u :: rest => (p.packets u).1 ++ packetsOf (p.packets u).2 rest

/-- What becomes of every number that access units use up one after another: its packet, or nothing where the cipher
keeps it back. -/
def issued (p : Packetizer) (units : List AccessUnit) : List (Option Bytes) := p.issue (units.flatMap p.plan)

/-- **All packets sent are what has been issued**, less what the cipher keeps back. -/
theorem packetsOf_eq : ∀ (units : List AccessUnit) (p : Packetizer), p.packetsOf units = (p.issued units).filterMap id
  | [], _ => rfl
  | u :: rest, p => by
    obtain ⟨s, t, hp⟩ := p.packets_eq u
    rw [packetsOf, hp, packetsOf_eq rest, issued, issued, List.flatMap_cons, issue_append, List.filterMap_append,
      issue_withSets]
    rfl

end Packetizer
end VideoTransport
