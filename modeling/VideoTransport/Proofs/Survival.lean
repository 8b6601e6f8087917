import Mathlib.Data.List.Basic
import VideoTransport.Proofs.Loss
/-!
# Survival — which units come out of a lossy stream

When the first packet of a stream is kept, a unit comes out exactly if all its packets and the one before it are kept
(`Assembler.feed_kept`).  When the first packets are lost, a unit may come out that lacks its first NAL units
(`Assembler.feed_kept_partial_iff`).
-/
namespace VideoTransport
namespace Packetizer

variable {p : Packetizer} {units : List AccessUnit} {keep : Nat → Bool} {pools : Nat → Pool} {first w : Nat}
  {u : AccessUnit}

/-- Whether unit number `w` survives: all its packets are kept and so is the packet before it, if there is one. -/
def survives (p : Packetizer) (units : List AccessUnit) (keep : Nat → Bool) (w : Nat) : Bool :=
  (p.positions units w).all keep && (p.position units w == 0 || keep (p.position units w - 1))

theorem survives_eq (hpos : p.position units w < p.position units (w + 1)) :
    p.survives units keep w = isUnbroken keep 0 (p.position units w) (p.position units (w + 1)) := by
  rw [Bool.eq_iff_iff, isUnbroken_iff, survives]
  simp only [Bool.and_eq_true, List.all_eq_true, mem_positions, Bool.or_eq_true, beq_iff_eq]
  constructor
  · rintro ⟨hall, hbefore⟩ i _ h1 h2
    rcases Nat.lt_or_ge i (p.position units w) with hi | hi
    · rcases hbefore with hz | hk
      · omega
      · have : i = p.position units w - 1 := by omega
        rw [this]
        exact hk
    · exact hall i ⟨hi, h2⟩
  · intro h
    refine ⟨fun i hi => h i (Nat.zero_le i) (by omega) hi.2, ?_⟩
    rcases Nat.eq_zero_or_pos (p.position units w) with hz | hz
    · exact .inl hz
    · exact .inr (h _ (Nat.zero_le _) (by omega) (by omega))

theorem isTouched_of_survives (hpos : p.position units w < p.position units (w + 1))
    (h : p.survives units keep w = true) : p.isTouched units keep w = true := by
  rw [survives, Bool.and_eq_true, List.all_eq_true] at h
  have hmem : p.position units w ∈ p.positions units w := mem_positions.2 ⟨Nat.le_refl _, hpos⟩
  exact List.any_eq_true.2 ⟨_, hmem, h.1 _ hmem⟩

theorem exists_last (hu : Streamable units) (h : units[w]? = some u) :
    ∃ i, ∃ x : Place p units i, i + 1 = p.position units (w + 1) ∧ x.number = w ∧ x.unit = u ∧
      x.draft.marker = true := by
  have hlt := position_lt_succ (p := p) hu h
  obtain ⟨i, hi⟩ : ∃ i, i + 1 = p.position units (w + 1) := ⟨p.position units (w + 1) - 1, by omega⟩
  obtain ⟨x⟩ : Nonempty (Place p units i) := Place.exist (Nat.lt_of_lt_of_le (by omega) (position_le_span (w + 1)))
  have hnumber : x.number = w := by
    have h1 := x.position_le
    have h2 := x.lt_position
    rcases Nat.lt_trichotomy x.number w with hn | hn | hn
    · have : p.position units (x.number + 1) ≤ p.position units w := position_mono hn
      omega
    · exact hn
    · have : p.position units (w + 1) ≤ p.position units x.number := position_mono hn
      omega
  have hunit := x.unit_at
  rw [hnumber, h] at hunit
  exact ⟨i, x, hi, hnumber, (Option.some.inj hunit).symm, x.marker_iff.2 (hnumber ▸ hi)⟩

/-- **What comes out and what is counted** when `first` is the first packet kept. -/
theorem feed_eq (hu : Streamable units) (hc : p.cipher.IsSound) (pool : Pool) (limit : Nat)
    (hgaps : p.HasShortGaps units keep) (hlt : first < p.span units) (hk : keep first = true)
    (hbefore : ∀ j, j < first → keep j = false) {r : Assembler × List AccessUnit}
    (hr : r = (Assembler.create p.cipher pool limit).feed (p.kept units keep pools)) :
    r.2 = units.zipIdx.filterMap (p.emission units keep pools first) ∧
    ((∀ j, (pools j).HasRoom) → r.1.stats.completed = r.2.length ∧
      r.1.stats.completed + r.1.stats.dropped + r.1.pending =
        units.zipIdx.countP fun e => p.isTouched units keep e.2) := by
  obtain ⟨i, x, h⟩ := caught_feed pools hu hc pool limit hgaps hk hbefore _ hlt (Nat.le_refl _)
  rw [List.take_of_length_le (Nat.le_of_eq (length_packetsOf hc)), ← kept, ← hr] at h
  have hend : p.position units units.length ≤ p.span units := position_le_span _
  have hall : units.take units.length = units := List.take_length
  have hm : (x.number + if x.draft.marker then 1 else 0) ≤ units.length := by
    have := x.number_lt
    split <;> omega
  refine ⟨?_, fun hroom => ?_⟩
  · have he := h.emitted_upTo hu hm hend
    rwa [hall] at he
  · obtain ⟨h1, h2⟩ := h.accounts hroom
    refine ⟨h1, h2.trans ?_⟩
    have ht : (p.touched units keep units.length).length = units.zipIdx.countP fun e => p.isTouched units keep e.2 := by
      rw [touched, hall, List.filterMap_eq_filter, List.countP_eq_length_filter]
    rw [← h.touched_upTo x.number_lt hend, ht]

/-- What comes out of a unit that has not lost its last packet, in terms of its last place. -/
theorem emission_eq_some_iff {i : Nat} {x : Place p units i} (hi : i + 1 = p.position units (x.number + 1))
    (hm : x.draft.marker = true) {e : AccessUnit} :
    p.emission units keep pools first (x.unit, x.number) = some e ↔
      first ≤ i ∧ (pools i).HasRoom ∧
        isUnbroken keep first (p.position units x.number) (i + 1) = true ∧
        x.due (x.soFar (first - p.position units x.number)) = some e := by
  by_cases hf : first ≤ i
  · rw [emission_of_marker hf hm, Place.remembered]
    by_cases hroom : (pools i).HasRoom
    · rw [Pool.granted_of_room hroom]
      cases hb : isUnbroken keep first (p.position units x.number) (i + 1) with
      | false =>
        rw [if_neg Bool.false_ne_true, Place.due, FrameContent.unit?_broken, ite_self]
        simp
      | true => simp [hf, hroom]
    · simp [Pool.granted_of_full hroom, hroom]
  · have hnone : p.emission units keep pools first (x.unit, x.number) = none := by
      refine if_neg fun h => ?_
      rw [Bool.and_eq_true, decide_eq_true_eq] at h
      have h1 : first < p.position units (x.number + 1) := h.1
      omega
    simp [hnone, hf]

/-- When the first packet is kept, a unit comes out whole or not at all. -/
theorem emission_zero (hu : Streamable units) (hroom : ∀ j, (pools j).HasRoom) {e : AccessUnit × Nat}
    (he : e ∈ units.zipIdx) :
    p.emission units keep pools 0 e = (Option.guard (fun e => p.survives units keep e.2) e).map (·.1.delivered) := by
  obtain ⟨u, w⟩ := e
  have hw : units[w]? = some u := List.mk_mem_zipIdx_iff_getElem?.1 he
  have hlt := position_lt_succ (p := p) hu hw
  obtain ⟨i, x, hi, rfl, rfl, hm⟩ := exists_last (p := p) hu hw
  rw [emission_of_marker (Nat.zero_le _) hm, Pool.granted_of_room (hroom _), Place.remembered, hi,
    ← survives_eq hlt, Nat.zero_sub]
  cases hs : p.survives units keep x.number with
  | false =>
    rw [if_neg Bool.false_ne_true, Place.due, FrameContent.unit?_broken, ite_self]
    simp [Option.guard, hs]
  | true =>
    rw [if_pos rfl, Place.due_whole hu hm]
    simp [Option.guard, hs]

theorem hasShortGaps_of_span (hc : p.cipher.IsSound) (h : p.span units < 65536) : p.HasShortGaps units keep := by
  intro i hi
  rw [length_packetsOf hc] at hi
  omega

theorem exists_first (keep : Nat → Bool) : ∀ n,
    (∃ first, first < n ∧ keep first = true ∧ ∀ j, j < first → keep j = false) ∨ ∀ j, j < n → keep j = false
  | 0 => .inr fun j hj => absurd hj (Nat.not_lt_zero j)
  | n + 1 => by
    rcases exists_first keep n with ⟨first, hlt, h⟩ | h
    · exact .inl ⟨first, Nat.lt_succ_of_lt hlt, h⟩
    · cases hk : keep n with
      | true => exact .inl ⟨n, Nat.lt_succ_self n, hk, h⟩
      | false =>
        refine .inr fun j hj => ?_
        rcases Nat.lt_or_eq_of_le (Nat.le_of_lt_succ hj) with hlt | rfl
        · exact h j hlt
        · exact hk

theorem kept_eq_nil (hc : p.cipher.IsSound) (h : ∀ j, j < p.span units → keep j = false) :
    p.kept units keep pools = [] := by
  rw [kept, List.filterMap_eq_nil_iff]
  intro e he
  have hlt := (List.getElem?_eq_some_iff.1 (List.mem_zipIdx_iff_getElem?.1 he)).1
  rw [length_packetsOf hc] at hlt
  rw [h e.2 hlt, if_neg Bool.false_ne_true]

theorem length_flatMap_payloads_pos {nals : List Bytes} (h : nals ≠ []) :
    0 < (nals.flatMap (Plan.payloads p.budget)).length := by
  have hempty := Plan.isEmpty_flatMap_payloads p.budget_piece_pos p.budget_whole_pos nals
  rw [List.isEmpty_eq_false_iff.2 h, List.isEmpty_eq_false_iff] at hempty
  exact List.length_pos_iff.2 hempty

/-- A part of a unit is none of the units that should come out. -/
theorem Place.assembled_ne_delivered (hu : Streamable units) {i : Nat} (x : Place p units i) {missed rest : List Bytes}
    (hs : AnnexB.nalUnits x.unit.bytes = missed ++ rest) (hm : missed ≠ []) :
    AccessUnit.assembled x.unit.timestamp rest ∉ units.map AccessUnit.delivered := by
  intro h
  obtain ⟨u, hmem, he⟩ := List.mem_map.1 h
  obtain ⟨v, hv⟩ := List.mem_iff_getElem?.1 hmem
  have ht : u.timestamp = x.unit.timestamp := (AccessUnit.mk.inj he).2.2.1
  by_cases hvn : v = x.number
  · have hxu := x.unit_at
    rw [← hvn, hv] at hxu
    obtain rfl := Option.some.inj hxu
    have hb : AnnexB.join (AnnexB.nalUnits x.unit.bytes) = AnnexB.join rest := congrArg AccessUnit.bytes he
    obtain ⟨nal, more, rfl⟩ := List.exists_cons_of_ne_nil hm
    have hlen := congrArg List.length hb
    rw [hs] at hlen
    simp [AnnexB.join, AnnexB.startCode] at hlen
    omega
  · exact Place.timestamp_ne hu.distinct hv x.unit_at hvn ht

end Packetizer

namespace Assembler

open Packetizer

variable {p : Packetizer} {units : List AccessUnit} {keep : Nat → Bool} {pools : Nat → Pool}

/-- **The exact loss behaviour of an assembler.**  When the first packet of a stream is kept and the pool always has a
buffer, the units that come out are those that survive, in order; the other units of which some packet is kept are
counted as dropped or are still pending. -/
theorem feed_kept (hu : Streamable units) (hc : p.cipher.IsSound) (pool : Pool) (limit : Nat) (keep : Nat → Bool)
    (pools : Nat → Pool) (hfirst : keep 0 = true) (hgaps : p.HasShortGaps units keep) (hroom : ∀ j, (pools j).HasRoom) :
    let (a, emitted) := (create p.cipher pool limit).feed (p.kept units keep pools)
    emitted = (units.zipIdx.filter fun e => p.survives units keep e.2).map (·.1.delivered) ∧
      a.stats.dropped + a.pending =
        (units.zipIdx.countP fun e => p.isTouched units keep e.2 && !p.survives units keep e.2) ∧
      a.stats.completed = emitted.length := by
  cases units with
  | nil => exact ⟨rfl, rfl, rfl⟩
  | cons u rest =>
    have hspan : 0 < p.span (u :: rest) :=
      Nat.lt_of_lt_of_le (position_lt_succ (p := p) (w := 0) hu rfl) (position_le_span 1)
    generalize hr : (create p.cipher pool limit).feed (p.kept (u :: rest) keep pools) = r
    obtain ⟨hemitted, hcounts⟩ := feed_eq hu hc pool limit hgaps hspan hfirst
      (fun j hj => absurd hj (Nat.not_lt_zero j)) hr.symm
    obtain ⟨hcompleted, hsum⟩ := hcounts hroom
    have hfilter : r.2 = ((u :: rest).zipIdx.filter fun e => p.survives (u :: rest) keep e.2).map (·.1.delivered) := by
      rw [hemitted, ← List.filterMap_eq_filter, List.map_filterMap]
      exact List.filterMap_congr fun e he => emission_zero hu hroom he
    refine ⟨hfilter, ?_, hcompleted⟩
    -- Of the units touched, those that survive are the ones completed.
    rw [List.countP_eq_countP_filter_add _ _ fun e => p.survives (u :: rest) keep e.2, List.countP_filter,
      List.countP_filter] at hsum
    have hboth : ((u :: rest).zipIdx.countP fun e =>
        p.isTouched (u :: rest) keep e.2 && p.survives (u :: rest) keep e.2) = r.2.length := by
      rw [hfilter, List.length_map, ← List.countP_eq_length_filter]
      refine List.countP_congr fun e he => ?_
      have hlt := position_lt_succ (p := p) hu (List.mem_zipIdx_iff_getElem?.1 he)
      rw [Bool.and_eq_true]
      exact ⟨And.right, fun h => ⟨isTouched_of_survives hlt h, h⟩⟩
    rw [hboth, hcompleted] at hsum
    show r.1.stats.dropped + r.1.pending = _
    omega

/-- The third packet is lost: the picture that it carries and the one behind it do not come out. -/
theorem feed_kept_without_third :
    let (a, emitted) := (create .identity { limit := 1 } 32).feed (plain.kept sample (· != 2) fun _ => { limit := 1 })
    emitted = [.assembled 0 [[0x67, 0x42], [0x65, 0x88]]] ∧ a.stats.dropped + a.pending = 1 ∧
      a.stats.completed = 1 := by
  obtain ⟨hemitted, hothers, hcompleted⟩ := feed_kept (p := plain) streamable_sample Cipher.identity_isSound
    { limit := 1 } 32 (· != 2) (fun _ => { limit := 1 }) rfl
    (hasShortGaps_of_span Cipher.identity_isSound (by decide)) fun _ => Nat.one_pos
  have hunits : _ = [AccessUnit.assembled 0 [[0x67, 0x42], [0x65, 0x88]]] := hemitted.trans (by decide)
  exact ⟨hunits, hothers.trans (by decide), hcompleted.trans (congrArg List.length hunits)⟩

/-! ## Units that come out in part -/

theorem exists_first_of_mem_feed (hc : p.cipher.IsSound) (pool : Pool) (limit : Nat) {e : AccessUnit}
    (he : e ∈ ((create p.cipher pool limit).feed (p.kept units keep pools)).2) :
    ∃ first, first < p.span units ∧ keep first = true ∧ ∀ j, j < first → keep j = false := by
  rcases exists_first keep (p.span units) with h | h
  · exact h
  · rw [kept_eq_nil hc h] at he
    cases he

/-- **When an assembler puts out part of a unit.**  A unit that is not as it was sent comes out exactly if the first
packets lost are, in its unit, those of its first NAL units, all later packets of the unit are kept, and the pool has a
buffer at its end. -/
theorem feed_kept_partial_iff (hu : Streamable units) (hc : p.cipher.IsSound) (pool : Pool) (limit : Nat)
    (keep : Nat → Bool) (pools : Nat → Pool) (hgaps : p.HasShortGaps units keep) :
    (∃ e ∈ ((create p.cipher pool limit).feed (p.kept units keep pools)).2, e ∉ units.map AccessUnit.delivered) ↔
    ∃ w u missed rest first, units[w]? = some u ∧ AnnexB.nalUnits u.bytes = missed ++ rest ∧ missed ≠ [] ∧ rest ≠ [] ∧
      first = p.position units w + (missed.flatMap (Plan.payloads p.budget)).length ∧
      (∀ j, j < first → keep j = false) ∧ (∀ j, first ≤ j → j < p.position units (w + 1) → keep j = true) ∧
      (pools (p.position units (w + 1) - 1)).HasRoom := by
  constructor
  · rintro ⟨e, he, hne⟩
    obtain ⟨first, hspan, hk, hbefore⟩ := exists_first_of_mem_feed hc pool limit he
    obtain ⟨hemitted, -⟩ := feed_eq hu hc pool limit hgaps hspan hk hbefore rfl
    rw [hemitted, List.mem_filterMap] at he
    obtain ⟨⟨u, w⟩, hmem, he⟩ := he
    have hw : units[w]? = some u := List.mk_mem_zipIdx_iff_getElem?.1 hmem
    obtain ⟨i, x, hi, rfl, rfl, hm⟩ := exists_last (p := p) hu hw
    obtain ⟨hf, hroom, hb, hdue⟩ := (emission_eq_some_iff hi hm).1 he
    have hpos := x.position_eq
    rcases Nat.lt_or_ge (p.position units x.number) first with hlt | hle
    · rcases x.due_drop hu hm (show first - p.position units x.number ≤ x.index by omega) with
        ⟨missed, rest, hs, hr, hc', -⟩ | hnone
      · have hmissed : missed ≠ [] := by
          rintro rfl
          have : first - p.position units x.number = 0 := hc'
          omega
        refine ⟨x.number, x.unit, missed, rest, first, hw, hs, hmissed, hr, by omega, hbefore, fun j h1 h2 => ?_, ?_⟩
        · exact isUnbroken_iff.1 hb j h1 (by omega) (by omega)
        · rwa [← hi, Nat.add_sub_cancel]
      · rw [hnone] at hdue
        cases hdue
    · rw [Nat.sub_eq_zero_of_le hle, x.due_whole hu hm] at hdue
      obtain rfl := Option.some.inj hdue
      exact absurd (List.mem_map_of_mem x.unit_mem) hne
  · rintro ⟨w, u, missed, rest, first, hw, hs, hmissed, hr, hfirst, hbefore, hkeep, hroom⟩
    obtain ⟨i, x, hi, rfl, rfl, hm⟩ := exists_last (p := p) hu hw
    have hlen : (p.drafts x.unit).length =
        (missed.flatMap (Plan.payloads p.budget)).length + (rest.flatMap (Plan.payloads p.budget)).length := by
      rw [drafts, Plan.drafts, Plan.length_markLast, hs, List.flatMap_append, List.length_append]
    have hmissedPos := length_flatMap_payloads_pos (p := p) hmissed
    have hrestPos := length_flatMap_payloads_pos (p := p) hr
    have hsucc := position_succ (p := p) hw
    obtain ⟨hemitted, -⟩ := feed_eq hu hc pool limit hgaps
      (Nat.lt_of_lt_of_le (by omega) (position_le_span (x.number + 1))) (hkeep first (Nat.le_refl _) (by omega)) hbefore rfl
    have hsub : first - p.position units x.number = (missed.flatMap (Plan.payloads p.budget)).length := by omega
    have hb : isUnbroken keep first (p.position units x.number) (i + 1) = true :=
      isUnbroken_iff.2 fun j h1 _ h3 => hkeep j h1 (by omega)
    rw [← hi, Nat.add_sub_cancel] at hroom
    refine ⟨.assembled x.unit.timestamp rest, ?_, x.assembled_ne_delivered hu hs hmissed⟩
    rw [hemitted, List.mem_filterMap]
    refine ⟨(x.unit, x.number), List.mk_mem_zipIdx_iff_getElem?.2 hw, ?_⟩
    rw [emission_eq_some_iff hi hm, hsub]
    exact ⟨by omega, hroom, hb, x.due_rest hu hm hs hr⟩

/-- The packet of the parameter set is lost: the refresh picture comes out without it. -/
theorem feed_kept_partial_without_first :
    ∃ e ∈ ((create .identity { limit := 1 } 32).feed (plain.kept sample (· != 0) fun _ => { limit := 1 })).2,
      e ∉ sample.map AccessUnit.delivered :=
  (feed_kept_partial_iff (p := plain) streamable_sample Cipher.identity_isSound { limit := 1 } 32 (· != 0)
    (fun _ => { limit := 1 }) (hasShortGaps_of_span Cipher.identity_isSound (by decide))).2
    ⟨0, .assembled 0 [[0x67, 0x42], [0x65, 0x88]], [[0x67, 0x42]], [[0x65, 0x88]], 1, rfl, by decide, by decide,
      by decide, by decide, by decide, fun j h1 _ => by simpa using Nat.ne_of_gt h1, by decide⟩

/-- Not every unit that an assembler puts out is one that was sent. -/
theorem emits_unit_in_part :
    Streamable [.assembled 0 [[0x67, 0x42], [0x65, 0x88]]] ∧
      plain.HasShortGaps [.assembled 0 [[0x67, 0x42], [0x65, 0x88]]] (· == 1) ∧
      ((create .identity { limit := 1 } 32).feed
        (plain.kept [.assembled 0 [[0x67, 0x42], [0x65, 0x88]]] (· == 1) fun _ => { limit := 1 })).2 =
          [.assembled 0 [[0x65, 0x88]]] ∧
      AccessUnit.assembled 0 [[0x65, 0x88]] ≠ (AccessUnit.assembled 0 [[0x67, 0x42], [0x65, 0x88]]).delivered := by
  refine ⟨⟨by decide, by decide, by decide⟩, hasShortGaps_of_span Cipher.identity_isSound (by decide), ?_, by decide⟩
  rw [kept, packetsOf_eq]
  decide

end Assembler
end VideoTransport
