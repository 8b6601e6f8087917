import VideoTransport.Proofs.Assembly
import VideoTransport.Proofs.Routing
/-!
# Capacity — no packet is longer than allowed

A packetizer is only created with room for a fragment, so the sizes that it reckons with are what the header, the
fragment header and the cipher leave of a packet.  A draft is no longer than the first of them, whatever the cipher
makes of it the packet is no longer than allowed, and a NAL unit is cut within its bounds (`Packetizer.keeps_to_mtu`).
-/
namespace VideoTransport
namespace Packetizer

/-! ## Cutting -/

namespace Cursor

/-- Where the next piece begins in the body of the first NAL unit. -/
def offset (c : Cursor) : Nat :=
  match c.nals, c.rest with
  | nal :: _, some left => nal.tail.length - left.length
  | _, _ => 0

/-- The length of the next piece of a body. -/
def pieceLength (b : Budget) (c : Cursor) (body : Bytes) : Nat := min b.piece (body.length - c.offset)

/-- The cursors that steps lead to, one by one. -/
inductive Reached (b : Budget) (start : Cursor) : Cursor → Prop
  | refl : Reached b start start
  | step {c c' : Cursor} {d : Draft} (h : Reached b start c) (hs : c.step b = some (d, c')) : Reached b start c'

/-- What is left of a NAL unit that is being cut is what stands in its body from the offset on. -/
def IsPlaced (b : Budget) (c : Cursor) : Prop :=
  ∀ left, c.rest = some left → ∃ nal later, c.nals = nal :: later ∧ b.whole < nal.length ∧
    0 < c.offset ∧ c.offset < nal.tail.length ∧ left = nal.tail.drop c.offset

variable {b : Budget} {c c' : Cursor} {d : Draft} {nal : Bytes} {later : List Bytes}

theorem offset_between (h : c.rest = none) : c.offset = 0 := by
  unfold offset
  rw [h]
  cases c.nals <;> rfl

theorem offset_within {left : Bytes} (hn : c.nals = nal :: later) (h : c.rest = some left) :
    c.offset = nal.tail.length - left.length := by
  unfold offset
  rw [hn, h]

/-- A NAL unit to be cut has a body, and what is left of it begins within. -/
theorem IsPlaced.offset_lt (h : c.IsPlaced b) (hw : 0 < b.whole) (hn : c.nals = nal :: later)
    (hl : b.whole < nal.length) : c.offset < nal.tail.length := by
  cases hr : c.rest with
  | none =>
    rw [offset_between hr, List.length_tail]
    omega
  | some left =>
    obtain ⟨nal', later', hn', -, -, hlt, -⟩ := h left hr
    rw [hn] at hn'
    cases hn'
    exact hlt

/-- **A step that cuts** takes the next piece and moves on behind it: within the NAL unit, or to the next one. -/
theorem IsPlaced.step_cut (h : c.IsPlaced b) (hw : 0 < b.whole) (hn : c.nals = nal :: later) (hl : b.whole < nal.length)
    (hs : c.step b = some (d, c')) :
    d.payload.drop 2 = (nal.tail.drop c.offset).take (c.pieceLength b nal.tail) ∧
      (c.offset + c.pieceLength b nal.tail = nal.tail.length ∧ c'.nals = later ∧ c'.rest = none ∨
        c'.nals = nal :: later ∧ c'.rest = some (nal.tail.drop (c.offset + c.pieceLength b nal.tail)) ∧
          c.offset + c.pieceLength b nal.tail < nal.tail.length) := by
  have hlt := h.offset_lt hw hn hl
  have hbody : ∃ isFirst, c.step b = some (stepPiece b c (nal.headD 0) isFirst (nal.tail.drop c.offset) later) := by
    cases hr : c.rest with
    | none =>
      refine ⟨true, ?_⟩
      unfold step
      rw [hn, hr, offset_between hr, List.drop_zero]
      exact if_neg (Nat.not_le.2 hl)
    | some left =>
      obtain ⟨nal', later', hn', -, -, -, rfl⟩ := h left hr
      rw [hn] at hn'
      cases hn'
      refine ⟨false, ?_⟩
      unfold step
      rw [hn, hr]
  obtain ⟨isFirst, hstep⟩ := hbody
  rw [hstep] at hs
  have hlength : (nal.tail.drop c.offset).length = nal.tail.length - c.offset := List.length_drop
  have hpiece : (nal.tail.drop c.offset).take b.piece = (nal.tail.drop c.offset).take (c.pieceLength b nal.tail) := by
    rw [pieceLength, ← hlength, ← List.take_eq_take_min]
  by_cases hlast : (nal.tail.drop c.offset).drop b.piece = []
  · rw [stepPiece_last _ _ _ hlast] at hs
    cases hs
    have hall := List.drop_eq_nil_iff.1 hlast
    refine ⟨hpiece, .inl ⟨?_, rfl, rfl⟩⟩
    unfold pieceLength
    omega
  · rw [stepPiece_more _ _ _ hlast] at hs
    cases hs
    have hmore := Nat.lt_of_not_le (mt List.drop_eq_nil_iff.2 hlast)
    have hfull : c.pieceLength b nal.tail = b.piece := by
      unfold pieceLength
      omega
    refine ⟨hpiece, .inr ⟨hn, ?_, by omega⟩⟩
    rw [hfull, ← List.drop_drop]

/-- A step on a NAL unit that travels whole moves on to the next one. -/
theorem IsPlaced.step_whole (h : c.IsPlaced b) (hn : c.nals = nal :: later) (hl : nal.length ≤ b.whole)
    (hs : c.step b = some (d, c')) : d.payload = nal ∧ c'.nals = later ∧ c'.rest = none := by
  have hr : c.rest = none := by
    cases hr : c.rest with
    | none => rfl
    | some left =>
      obtain ⟨nal', later', hn', hl', -⟩ := h left hr
      rw [hn] at hn'
      cases hn'
      exact absurd hl (Nat.not_le.2 hl')
  unfold step at hs
  rw [hn, hr] at hs
  simp only [if_pos hl] at hs
  cases hs
  exact ⟨rfl, rfl, rfl⟩

theorem IsPlaced.step (hp : 0 < b.piece) (hw : 0 < b.whole) (h : c.IsPlaced b) (hs : c.step b = some (d, c')) :
    c'.IsPlaced b := by
  intro left hleft
  cases hn : c.nals with
  | nil =>
    unfold Cursor.step at hs
    rw [hn] at hs
    cases hs
  | cons nal later =>
    rcases Nat.lt_or_ge b.whole nal.length with hl | hl
    · have hlt := h.offset_lt hw hn hl
      have hpos : 0 < c.pieceLength b nal.tail := by
        unfold pieceLength
        omega
      obtain ⟨-, ⟨-, -, hnone⟩ | ⟨hn', hr', hmore⟩⟩ := h.step_cut hw hn hl hs
      · rw [hnone] at hleft
        cases hleft
      · have hon : c'.offset = c.offset + c.pieceLength b nal.tail := by
          rw [offset_within hn' hr', List.length_drop]
          omega
        rw [hr'] at hleft
        cases hleft
        exact ⟨nal, later, hn', hl, by omega, by omega, by rw [hon]⟩
    · obtain ⟨-, -, hnone⟩ := h.step_whole hn hl hs
      rw [hnone] at hleft
      cases hleft

/-- **Wherever steps lead**, a NAL unit that is being cut is cut within its bounds. -/
theorem Reached.isPlaced {start : Cursor} (hp : 0 < b.piece) (hw : 0 < b.whole) (hs : start.rest = none)
    (h : Reached b start c) : c.IsPlaced b := by
  induction h with
  | refl =>
    intro left hleft
    rw [hs] at hleft
    cases hleft
  | step _ hstep ih => exact ih.step hp hw hstep

end Cursor

/-! ## Lengths -/

theorem budget_sizes (p : Packetizer) :
    12 + p.cipher.overhead + p.budget.whole = p.mtu ∧ 14 + p.cipher.overhead + p.budget.piece = p.mtu ∧
      1 ≤ p.budget.piece := by
  have := p.room
  simp only [budget, Rtp.headerLength, Fragment.headerLength] at this ⊢
  omega

theorem Cursor.length_stepPiece (b : Budget) (c : Cursor) (header : UInt8) (isFirst : Bool) (body : Bytes)
    (later : List Bytes) : (stepPiece b c header isFirst body later).1.payload.length ≤ b.piece + 2 := by
  have htake : (body.take b.piece).length ≤ b.piece := List.length_take_le _ _
  exact Nat.add_le_add_right htake 2

/-- No draft takes more than what a header and the cipher leave of a packet. -/
theorem length_draft (p : Packetizer) {c c' : Cursor} {d : Draft} (h : c.step p.budget = some (d, c')) :
    d.payload.length ≤ p.budget.whole := by
  obtain ⟨hwhole, hpiece, -⟩ := p.budget_sizes
  have hcut (header : UInt8) (isFirst : Bool) (body : Bytes) (later : List Bytes) :=
    Cursor.length_stepPiece p.budget c header isFirst body later
  unfold Cursor.step at h
  split at h
  · cases h
  split at h
  · rename_i nal later _ _ body _
    have hd := hcut (nal.headD 0) false body later
    rw [Option.some.inj h] at hd
    exact Nat.le_trans hd (by omega)
  split at h
  · rename_i hl
    cases h
    exact hl
  · rename_i nal later _ _ _ _
    have hd := hcut (nal.headD 0) true nal.tail later
    rw [Option.some.inj h] at hd
    exact Nat.le_trans hd (by omega)

/-- **Whatever the cipher makes of a payload**, a packet grows no longer than the overhead allows. -/
theorem emit_length_le {p : Packetizer} {timestamp : UInt32} {d : Draft} {packet : Bytes}
    (h : (p.emit timestamp d).1 = some packet) :
    packet.length ≤ 12 + d.payload.length + p.cipher.overhead := by
  unfold emit at h
  dsimp only at h
  split at h
  · cases h
  · split at h
    · cases h
    · rename_i hkept
      cases h
      rw [List.length_append, Rtp.Header.length_write, Rtp.headerLength]
      omega

theorem next_length_le {p p' : Packetizer} {c c' : Cursor} {packet : Bytes} (h : p.next c = (some packet, p', c')) :
    packet.length ≤ p.mtu := by
  rw [next] at h
  split at h
  · cases h
  · rename_i d c'' hstep
    have hweight := Cursor.step_weight p.budget_piece_pos hstep
    split at h
    · rename_i packet' p'' hemit
      cases h
      have hgrown := emit_length_le (congrArg Prod.fst hemit)
      have hdraft := p.length_draft hstep
      obtain ⟨hwhole, -⟩ := p.budget_sizes
      omega
    · rename_i p'' hemit
      obtain rfl : p'' = p.startAt (p.nextSequence + 1) := (congrArg Prod.snd hemit).symm
      have hlater : packet.length ≤ (p.startAt (p.nextSequence + 1)).mtu := next_length_le h
      exact hlater
termination_by c.weight

theorem pull_length_le : ∀ (k : Nat) (p : Packetizer) (c : Cursor), ∀ packet ∈ (p.pull k c).1, packet.length ≤ p.mtu
  | 0, _, _ => fun _ h => absurd h List.not_mem_nil
  | k + 1, p, c => by
    obtain ⟨⟨j, hj⟩, -, -⟩ := next_emits p c
    rw [pull]
    split
    · exact fun _ h => absurd h List.not_mem_nil
    · rename_i packet p' c' hnext
      rw [hnext] at hj
      obtain rfl : p' = p.startAt (Serial.nth p.nextSequence j) := hj
      exact List.forall_mem_cons.2 ⟨next_length_le hnext, pull_length_le k _ c'⟩

/-! ## Where the search goes -/

theorem next_reached (p : Packetizer) {start c : Cursor} (h : Cursor.Reached p.budget start c) :
    Cursor.Reached p.budget start (p.next c).2.2 := by
  cases hs : c.step p.budget with
  | none =>
    rw [next_of_none hs]
    exact h
  | some stepped =>
    obtain ⟨d, c'⟩ := stepped
    have hweight := Cursor.step_weight p.budget_piece_pos hs
    rw [next_of_some hs]
    split
    · exact h.step hs
    · exact next_reached (p.startAt (p.nextSequence + 1)) (h.step hs)
termination_by c.weight

theorem pull_reached : ∀ (k : Nat) (p : Packetizer) {start c : Cursor}, Cursor.Reached p.budget start c →
    Cursor.Reached p.budget start (p.pull k c).2.2
  | 0, _, _, _, h => h
  | k + 1, p, start, c, h => by
    have hnext := next_reached p h
    obtain ⟨⟨j, hj⟩, -, -⟩ := next_emits p c
    rw [pull]
    split
    · rename_i heq
      rw [heq] at hnext
      exact hnext
    · rename_i packet p' c' heq
      rw [heq] at hnext hj
      obtain rfl : p' = p.startAt (Serial.nth p.nextSequence j) := hj
      exact pull_reached k (p.startAt (Serial.nth p.nextSequence j)) hnext

/-! ## Packetizers -/

/-- **No packet is longer than allowed.**  Take any packetizer, so one with room for a fragment, and a cipher that may do
anything to payloads.  What the header, the fragment header and the cipher take is less than a packet may hold, and what
remains are the sizes that it reckons with.  Every packet that comes out, from wherever a cursor stands, is no longer
than allowed.  And while it turns a unit into packets, wherever the search for a packet stands, a NAL unit that does not
travel whole has a body that reaches beyond the offset, so that the next piece holds something and ends within the
body. -/
theorem keeps_to_mtu (p : Packetizer) (u : AccessUnit) :
    (12 + p.cipher.overhead + p.budget.whole = p.mtu ∧ 14 + p.cipher.overhead + p.budget.piece = p.mtu ∧
      1 ≤ p.budget.piece) ∧
    (∀ packet ∈ (p.packets u).1, packet.length ≤ p.mtu) ∧
    (∀ k c, ∀ packet ∈ (p.pull k c).1, packet.length ≤ p.mtu) ∧
    (∀ k, Cursor.Reached p.budget (p.begin u).1 ((p.begin u).2.pull k (p.begin u).1).2.2) ∧
    ∀ c, Cursor.Reached p.budget (p.begin u).1 c → ∀ nal later, c.nals = nal :: later → p.budget.whole < nal.length →
      c.offset < nal.tail.length ∧ 1 ≤ c.pieceLength p.budget nal.tail ∧
      c.offset + c.pieceLength p.budget nal.tail ≤ nal.tail.length ∧
      ∀ d c', c.step p.budget = some (d, c') →
        d.payload.drop 2 = (nal.tail.drop c.offset).take (c.pieceLength p.budget nal.tail) := by
  obtain ⟨hwhole, hpiece, hpos⟩ := p.budget_sizes
  obtain ⟨s, t, hsets⟩ := foldl_capture (AnnexB.nalUnits u.bytes) p
  have hbegin : (p.begin u).2 = p.withSets s t := hsets
  refine ⟨⟨hwhole, hpiece, hpos⟩, ?_, fun k c => pull_length_le k p c, fun k => ?_, ?_⟩
  · show ∀ packet ∈ ((p.begin u).2.pull (p.begin u).1.weight (p.begin u).1).1, _
    rw [hbegin]
    exact pull_length_le _ (p.withSets s t) _
  · rw [hbegin]
    exact pull_reached k (p.withSets s t) .refl
  · intro c hc nal later hn hl
    have hplaced := hc.isPlaced p.budget_piece_pos p.budget_whole_pos rfl
    have hlt := hplaced.offset_lt p.budget_whole_pos hn hl
    refine ⟨hlt, ?_, ?_, fun d c' hs => (hplaced.step_cut p.budget_whole_pos hn hl hs).1⟩
    · unfold Cursor.pieceLength
      omega
    · unfold Cursor.pieceLength
      omega

end Packetizer
end VideoTransport
