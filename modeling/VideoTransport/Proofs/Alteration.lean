import VideoTransport.Proofs.Grammar
import VideoTransport.Proofs.RoundTrip
/-!
# Alteration — access units that come out as others

A packetizer sends a NAL unit that fits into a packet as it is, whatever its type.  One of the type that marks
fragments is then taken for a fragment on the other side: its header and its first octet are read as those of a
fragment, and it is put together with what comes before and behind it.  So an access unit comes out altered just when it
holds such a NAL unit and its payloads happen to make up an access unit nevertheless (`processAll_alters_iff`).  Every
octet of a NAL unit that is heard as itself is in the unit that comes out, and of one that is taken for a fragment at
least one is not (`octets_hear_unit`).
-/
namespace VideoTransport

/-- Whether a NAL unit travels whole although its header is that of a fragment. -/
def Plan.isMistakable (b : Budget) (nal : Bytes) : Bool :=
  nal.length ≤ b.whole && Nal.kind? nal = some Nal.fragment

namespace AnnexB

theorem length_join_cons (nal : Bytes) (nals : List Bytes) :
    (join (nal :: nals)).length = nal.length + 4 + (join nals).length := by
  simp only [join, startCode, List.flatMap_cons, List.length_append, List.length_cons, List.length_nil]
  omega

theorem length_join_reverse (nals : List Bytes) : (join nals.reverse).length = (join nals).length :=
  ((List.reverse_perm nals).flatMap_right _).length_eq

end AnnexB

namespace FrameContent

/-! ## Octets -/

/-- How long the bitstream is of all that a frame holds. -/
def octets : FrameContent → Nat
  | broken => 0
  | intact nals none => (AnnexB.join nals).length
  | intact nals (some run) => (AnnexB.join (run.nal :: nals)).length

theorem octets_close (isLast : Bool) (nals : List Bytes) (run : FragmentRun) :
    (close isLast nals run).octets = run.nal.length + 4 + (AnnexB.join nals).length := by
  rw [← AnnexB.length_join_cons]
  cases isLast <;> rfl

variable {b : Budget}

/-- A NAL unit that is taken for a fragment loses an octet at least. -/
theorem octets_hear_mistakable {nal : Bytes} (h : Plan.isMistakable b nal = true) (c : FrameContent) :
    (Plan.payloads b nal).foldl hear c = .broken ∨
      ((Plan.payloads b nal).foldl hear c).octets < c.octets + (nal.length + 4) := by
  rw [Plan.isMistakable, Bool.and_eq_true, decide_eq_true_eq, decide_eq_true_eq] at h
  obtain ⟨hlength, hkind⟩ := h
  rw [Plan.payloads_whole hlength, List.foldl_cons, List.foldl_nil]
  rcases Payload.read_cases nal with ⟨hcarry, -⟩ | ⟨p, rfl, htype⟩ | ⟨reason, hread⟩
  · rw [Nal.isCarriable, hkind] at hcarry
    cases hcarry
  · have hpayload : p.payload.length = p.body.length + 2 := rfl
    cases c with
    | broken => exact .inl (hear_broken _)
    | intact nals run =>
      cases run with
      | none =>
        rw [hear_piece_between htype]
        split
        · right
          rw [octets_close, octets, hpayload]
          simp only [FragmentRun.nal, List.length_cons, List.reverse_singleton, List.flatten_singleton]
          omega
        · exact .inl rfl
      | some run =>
        rw [hear_piece_within htype]
        split
        · exact .inl rfl
        · right
          rw [octets_close, octets, AnnexB.length_join_cons, hpayload]
          simp only [FragmentRun.nal, List.length_cons, List.reverse_cons, List.flatten_append, List.flatten_singleton,
            List.length_append]
          omega
  · exact .inl (hear_unread hread c)

theorem hear_cut_within (hp : 0 < b.piece) (hw : 0 < b.whole) {nal : Bytes} (h : b.whole < nal.length)
    (nals : List Bytes) (run : FragmentRun) :
    (Plan.payloads b nal).foldl hear (intact nals (some run)) = .broken := by
  cases nal with
  | nil => exact absurd h (Nat.not_lt_zero _)
  | cons header body =>
    have hbody : body ≠ [] := by
      rintro rfl
      exact Nat.not_lt.2 hw h
    -- The first fragment comes while another NAL unit is unfinished.
    have hfirst : ∀ isLast piece,
        (intact nals (some run)).hear (Fragment.write ⟨header, Nal.typeOf header, true, isLast, piece⟩) = .broken :=
      fun isLast piece => hear_fragment rfl nals (some run)
    rw [Plan.payloads_cut h, Plan.slices_cons hp hbody, Plan.train, List.map_cons, List.foldl_cons, hfirst,
      foldl_hear_broken]

/-- Any other NAL unit is heard as itself, between two NAL units. -/
theorem hear_unmistakable (hp : 0 < b.piece) (hw : 0 < b.whole) {nal : Bytes} (h : Plan.isMistakable b nal = false)
    (c : FrameContent) :
    (Plan.payloads b nal).foldl hear c = .broken ∨
      ∃ nals, c = intact nals none ∧ (Plan.payloads b nal).foldl hear c = intact (nal :: nals) none := by
  cases c with
  | broken => exact .inl (foldl_hear_broken _)
  | intact nals run =>
    by_cases hlength : nal.length ≤ b.whole
    · rw [Plan.payloads_whole hlength, List.foldl_cons, List.foldl_nil]
      rcases Payload.read_cases nal with ⟨hcarry, hread⟩ | ⟨p, rfl, htype⟩ | ⟨reason, hread⟩
      · cases run with
        | none => exact .inr ⟨nals, rfl, hear_whole hcarry nals⟩
        | some run => exact .inl (hear_single_within hread nals run)
      · have hmistakable : Plan.isMistakable b p.payload = true := by
          rw [Plan.isMistakable, Bool.and_eq_true, decide_eq_true_eq, decide_eq_true_eq]
          exact ⟨hlength, congrArg some htype⟩
        rw [h] at hmistakable
        cases hmistakable
      · exact .inl (hear_unread hread _)
    · cases run with
      | none => exact .inr ⟨nals, rfl, hear_cut hp hw (Nat.not_le.1 hlength) nals⟩
      | some run => exact .inl (hear_cut_within hp hw (Nat.not_le.1 hlength) nals run)

/-- **A frame that is not broken by an access unit** has grown by its bitstream, less an octet at least if some NAL unit
was taken for a fragment. -/
theorem octets_hear_unit (hp : 0 < b.piece) (hw : 0 < b.whole) : ∀ (nals : List Bytes) (c : FrameContent),
    (nals.flatMap (Plan.payloads b)).foldl hear c = .broken ∨
      ((nals.flatMap (Plan.payloads b)).foldl hear c).octets + (if nals.any (Plan.isMistakable b) then 1 else 0) ≤
        c.octets + (AnnexB.join nals).length
  | [], c => .inr (Nat.le_refl _)
  | nal :: rest, c => by
    have ih := octets_hear_unit hp hw rest ((Plan.payloads b nal).foldl hear c)
    have hjoin := AnnexB.length_join_cons nal rest
    rw [List.flatMap_cons, List.foldl_append, List.any_cons]
    rcases ih with hbroken | hle
    · exact .inl hbroken
    cases hmistakable : Plan.isMistakable b nal with
    | true =>
      rcases octets_hear_mistakable hmistakable c with hbroken | hlt
      · exact .inl (by rw [hbroken, foldl_hear_broken])
      · right
        rw [Bool.true_or, if_pos rfl]
        omega
    | false =>
      rcases hear_unmistakable hp hw hmistakable c with hbroken | ⟨nals, rfl, hheard⟩
      · exact .inl (by rw [hbroken, foldl_hear_broken])
      · right
        have hoctets : (intact (nal :: nals) none).octets = nal.length + 4 + (intact nals none).octets :=
          AnnexB.length_join_cons nal nals
        rw [hheard] at hle ⊢
        rw [Bool.false_or]
        omega

theorem hear_unit_unmistakable (hp : 0 < b.piece) (hw : 0 < b.whole) : ∀ (nals before : List Bytes),
    nals.any (Plan.isMistakable b) = false →
    (nals.flatMap (Plan.payloads b)).foldl hear (intact before none) = .broken ∨
      (nals.flatMap (Plan.payloads b)).foldl hear (intact before none) = intact (nals.reverse ++ before) none
  | [], _, _ => .inr rfl
  | nal :: rest, before, h => by
    rw [List.any_cons, Bool.or_eq_false_iff] at h
    rw [List.flatMap_cons, List.foldl_append]
    rcases hear_unmistakable hp hw h.1 (intact before none) with hbroken | ⟨nals, hnals, hheard⟩
    · exact .inl (by rw [hbroken, foldl_hear_broken])
    · obtain rfl := (FrameContent.intact.inj hnals).1
      rw [hheard, List.reverse_cons, List.append_assoc]
      exact hear_unit_unmistakable hp hw rest (nal :: before) h.2

/-- **What comes of an access unit is the unit itself** just when no NAL unit is taken for a fragment. -/
theorem join_finished_iff (hp : 0 < b.piece) (hw : 0 < b.whole) {nals result : List Bytes}
    (h : ((nals.flatMap (Plan.payloads b)).foldl hear (intact [] none)).finished? = some result) :
    AnnexB.join result = AnnexB.join nals ↔ nals.any (Plan.isMistakable b) = false := by
  obtain ⟨-, hcontent⟩ := finished?_eq_some_iff.1 h
  constructor
  · intro hjoin
    rcases octets_hear_unit hp hw nals (intact [] none) with hbroken | hle
    · rw [hcontent] at hbroken
      cases hbroken
    · have hresult : (intact result.reverse none).octets = (AnnexB.join nals).length :=
        (AnnexB.length_join_reverse result).trans (congrArg List.length hjoin)
      have hzero : (intact [] none).octets = 0 := rfl
      rw [hcontent, hresult, hzero] at hle
      cases hany : nals.any (Plan.isMistakable b) with
      | false => rfl
      | true =>
        rw [hany, if_pos rfl] at hle
        omega
  · intro hany
    rcases hear_unit_unmistakable hp hw nals [] hany with hbroken | hexact
    · rw [hcontent] at hbroken
      cases hbroken
    · rw [hcontent, List.append_nil] at hexact
      rw [List.reverse_inj.1 (FrameContent.intact.inj hexact).1]

end FrameContent

namespace Assembler

/-- **An access unit comes out altered** just when the pool has a buffer, the payloads make up an access unit, and one of
the NAL units that travel whole has the header of a fragment. -/
theorem processAll_alters_iff {p : Packetizer} (hc : p.cipher.IsSound) (u : AccessUnit) (pool : Pool) (limit : Nat) :
    ∃ packets, (p.packets u).1.mapM Rtp.Packet.parse = .ok packets ∧
      ((∃ unit, .ok (some unit) ∈ ((create p.cipher pool limit).processAll packets).2 ∧
          unit.bytes ≠ AnnexB.normalize u.bytes) ↔
        pool.HasRoom ∧ (∃ items, Parses ((AnnexB.nalUnits u.bytes).flatMap (Plan.payloads p.budget)) items) ∧
          ∃ nal ∈ AnnexB.nalUnits u.bytes, Plan.isMistakable p.budget nal = true) := by
  obtain ⟨packets, hparse, hconveys⟩ := Packetizer.conveys_packets hc u
  refine ⟨packets, hparse, ?_⟩
  constructor
  · rintro ⟨unit, hmem, hne⟩
    have hpackets : packets ≠ [] := by
      rintro rfl
      cases hmem
    obtain ⟨hroom, hdue⟩ := ((passed_new hconveys hpackets pool limit).mem_answers unit).1 hmem
    obtain ⟨result, hfinished, rfl⟩ := Option.map_eq_some_iff.1 hdue
    obtain ⟨items, hitems, -⟩ := FrameContent.finished?_hear_iff.1 hfinished
    refine ⟨hroom, ⟨items, hitems⟩, ?_⟩
    rw [← List.any_eq_true, ← Bool.not_eq_false]
    exact fun hany => hne ((FrameContent.join_finished_iff p.budget_piece_pos p.budget_whole_pos hfinished).2 hany)
  · rintro ⟨hroom, ⟨items, hitems⟩, nal, hnal, hmistakable⟩
    have hpackets := Packetizer.packets_ne_nil hconveys (List.ne_nil_of_mem hnal)
    have hfinished := FrameContent.finished?_hear_iff.2 ⟨items, hitems, rfl⟩
    refine ⟨AccessUnit.assembled u.timestamp (items.map Item.nal),
      ((passed_new hconveys hpackets pool limit).mem_answers _).2 ⟨hroom, congrArg (Option.map _) hfinished⟩, ?_⟩
    intro hsame
    have hany := (FrameContent.join_finished_iff p.budget_piece_pos p.budget_whole_pos hfinished).1 hsame
    rw [List.any_eq_false] at hany
    exact hany nal hnal hmistakable

/-- A unit of one NAL unit, of the type that marks fragments and with a body that reads as a fragment's. -/
def impostor : AccessUnit := .assembled 3000 [[0x7c, 0xc5, 1, 2]]

theorem processAll_alters_impostor : ∃ packets,
    (Packetizer.plain.packets impostor).1.mapM Rtp.Packet.parse = .ok packets ∧
      ∃ unit, .ok (some unit) ∈ ((create .identity { limit := 1 } 1).processAll packets).2 ∧
        unit.bytes ≠ AnnexB.normalize impostor.bytes := by
  obtain ⟨packets, hparse, hiff⟩ :=
    processAll_alters_iff (p := Packetizer.plain) Cipher.identity_isSound impostor { limit := 1 } 1
  have hitems : Parses ((AnnexB.nalUnits impostor.bytes).flatMap (Plan.payloads Packetizer.plain.budget))
      [.run ⟨0x7c, 0xc5, [1, 2]⟩ []] := ⟨by decide, by decide, by decide⟩
  exact ⟨packets, hparse, hiff.2 ⟨by decide, ⟨_, hitems⟩, [0x7c, 0xc5, 1, 2], by decide, by decide⟩⟩

/-- A refresh picture comes out that was never sent. -/
theorem emits_altered_unit :
    (Packetizer.plain.packets impostor).1.mapM Rtp.Packet.parse =
        .ok [⟨⟨true, 96, 0, 3000, 1⟩, [0x7c, 0xc5, 1, 2]⟩] ∧
      ((create .identity { limit := 1 } 1).processAll [⟨⟨true, 96, 0, 3000, 1⟩, [0x7c, 0xc5, 1, 2]⟩]).2 =
        [.ok (some (.assembled 3000 [[0x65, 1, 2]]))] ∧
      (AccessUnit.assembled 3000 [[0x65, 1, 2]]).bytes ≠ AnnexB.normalize impostor.bytes := by
  obtain ⟨s, t, hpackets⟩ := Packetizer.plain.packets_eq impostor
  rw [hpackets]
  exact ⟨rfl, rfl, by decide⟩

end Assembler
end VideoTransport
