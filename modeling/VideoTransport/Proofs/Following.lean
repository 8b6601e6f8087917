import VideoTransport.Proofs.Carriage
/-!
# Following — an assembler along a stream

An assembler is handed packets of a stream with ascending positions.  After each packet its last frame is that of the
packet's unit, unless the unit has ended, and the frames before it are left from units that have lost their end
(`Follows`).  One packet leads from one such state to the next: the frame goes on with what it held if no packet in
between has been missed, begins anew with a new unit, and is broken otherwise (`Follows.process`).
-/
namespace VideoTransport

open Serial (nth)

/-- Access units that can be sent one after another and told apart: each has NAL units, of types that packets carry,
and a timestamp of its own. -/
structure Streamable (units : List AccessUnit) : Prop where
  nonempty : ∀ u ∈ units, AnnexB.nalUnits u.bytes ≠ []
  carriable : ∀ u ∈ units, ∀ nal ∈ AnnexB.nalUnits u.bytes, Nal.isCarriable nal = true
  distinct : (units.map (·.timestamp)).Nodup

/-- The access unit that comes out for one that was sent: in its normal form, at its time, and marked as a key frame if
it holds a refresh picture. -/
def AccessUnit.delivered (u : AccessUnit) : AccessUnit := assembled u.timestamp (AnnexB.nalUnits u.bytes)

theorem Plan.payload_markLast : ∀ payloads : List Bytes, (markLast payloads).map (·.payload) = payloads
  | [] => rfl
  | payload :: rest => by rw [markLast_cons, List.map_cons, payload_markLast rest]

def FrameContent.ofDrafts (drafts : List Draft) : FrameContent := (drafts.map (·.payload)).foldl hear (.intact [] none)

theorem FrameContent.ofDrafts_append_singleton (drafts : List Draft) (d : Draft) :
    ofDrafts (drafts ++ [d]) = (ofDrafts drafts).hear d.payload := by
  rw [ofDrafts, List.map_append, List.foldl_append]
  rfl

namespace Packetizer

variable {p : Packetizer} {units : List AccessUnit} {i k : Nat}

namespace Place

theorem timestamp_ne (hd : (units.map (·.timestamp)).Nodup) {v w : Nat} {u u' : AccessUnit} (hu : units[v]? = some u)
    (hu' : units[w]? = some u') (h : v ≠ w) : u.timestamp ≠ u'.timestamp := by
  intro he
  have hlt : v < (units.map (·.timestamp)).length := by
    rw [List.length_map]
    exact (List.getElem?_eq_some_iff.1 hu).1
  refine h ((List.getElem?_inj hlt hd).1 ?_)
  rw [List.getElem?_map, List.getElem?_map, hu, hu', Option.map_some, Option.map_some, he]

/-! ## What a frame should hold -/

/-- What a frame holds that has heard the packets of a unit from number `first` on. -/
def soFar (y : Place p units k) (first : Nat) : FrameContent :=
  .ofDrafts (((p.drafts y.unit).take (y.index + 1)).drop first)

theorem soFar_index (y : Place p units k) : y.soFar y.index = FrameContent.hear (.intact [] none) y.draft.payload := by
  have htake : (p.drafts y.unit).take (y.index + 1) = (p.drafts y.unit).take y.index ++ [y.draft] := by
    rw [List.take_add_one, y.draft_at]
    rfl
  have hlen : ((p.drafts y.unit).take y.index).length = y.index := List.length_take_of_le (Nat.le_of_lt y.index_lt)
  rw [soFar, htake, List.drop_append, hlen, Nat.sub_self, List.drop_of_length_le (Nat.le_of_eq hlen)]
  rfl

theorem soFar_zero {y : Place p units k} (h : y.index = 0) :
    y.soFar 0 = FrameContent.hear (.intact [] none) y.draft.payload := by rw [← soFar_index, h]

theorem soFar_next {x : Place p units i} {y : Place p units k} (hn : x.number = y.number)
    (hj : y.index = x.index + 1) {first : Nat} (hf : first ≤ x.index + 1) :
    y.soFar first = (x.soFar first).hear y.draft.payload := by
  have hlt := x.index_lt
  have htake : (p.drafts y.unit).take (y.index + 1) = (p.drafts x.unit).take (x.index + 1) ++ [y.draft] := by
    rw [List.take_add_one, y.draft_at, ← x.unit_eq y hn, hj]
    rfl
  have hlen : ((p.drafts x.unit).take (x.index + 1)).length = x.index + 1 := List.length_take_of_le hlt
  rw [soFar, htake, List.drop_append, hlen, Nat.sub_eq_zero_of_le hf]
  exact FrameContent.ofDrafts_append_singleton _ _

/-- What the frame of a packet holds before it hears the packet, when the frame of place `x` held `content` at last. -/
def ongoing (x : Place p units i) (y : Place p units k) (content : FrameContent) : FrameContent :=
  if k = i + 1 then if x.number = y.number then content else .intact [] none else .broken

/-- A frame that has heard all packets of its unit so far goes on to do so when none is missed. -/
theorem soFar_ongoing (x : Place p units i) (y : Place p units (i + 1)) :
    (x.ongoing y (x.soFar 0)).hear y.draft.payload = y.soFar 0 := by
  rw [ongoing, if_pos rfl]
  rcases x.next_cases y with ⟨hn, hj, -⟩ | ⟨hn, hj, -⟩
  · rw [if_pos hn, soFar_next hn hj (Nat.zero_le _)]
  · rw [if_neg (Nat.ne_of_lt hn), soFar_zero hj]

/-- The unit that is due at a place whose frame holds `content` then. -/
def due (y : Place p units k) (content : FrameContent) : Option AccessUnit :=
  if y.draft.marker then content.unit? y.unit.timestamp else none

/-! ## What comes of a unit -/

theorem soFar_of_marker {x : Place p units i} (hm : x.draft.marker = true) (first : Nat) :
    x.soFar first =
      (((AnnexB.nalUnits x.unit.bytes).flatMap (Plan.payloads p.budget)).drop first).foldl .hear (.intact [] none) := by
  have hpos := x.position_eq
  have hend := x.marker_iff.1 hm
  rw [position_succ x.unit_at] at hend
  rw [soFar, List.take_of_length_le (by omega), FrameContent.ofDrafts, List.map_drop, drafts, Plan.drafts,
    Plan.payload_markLast]

/-- When the packets of whole NAL units have been missed, the other NAL units come out. -/
theorem due_rest (hu : Streamable units) {x : Place p units i} (hm : x.draft.marker = true) {missed rest : List Bytes}
    (hs : AnnexB.nalUnits x.unit.bytes = missed ++ rest) (hr : rest ≠ []) :
    x.due (x.soFar (missed.flatMap (Plan.payloads p.budget)).length) =
      some (AccessUnit.assembled x.unit.timestamp rest) := by
  have hcarry : ∀ nal ∈ rest, Nal.isCarriable nal = true := fun nal hn =>
    hu.carriable x.unit x.unit_mem nal (hs ▸ List.mem_append_right missed hn)
  rw [due, if_pos hm, soFar_of_marker hm, hs, List.flatMap_append, List.drop_left,
    FrameContent.hear_unit p.budget_piece_pos p.budget_whole_pos rest [] hcarry, List.append_nil, FrameContent.unit?,
    FrameContent.finished?_intact hr]
  rfl

/-- **A unit whose packets have all been heard comes out.** -/
theorem due_whole (hu : Streamable units) {x : Place p units i} (hm : x.draft.marker = true) :
    x.due (x.soFar 0) = some x.unit.delivered :=
  due_rest hu hm (show _ = [] ++ _ from rfl) (hu.nonempty x.unit x.unit_mem)

/-- Of a unit whose first packets have been missed comes nothing, unless these are the packets of whole NAL units; then
the other NAL units come out. -/
theorem due_drop (hu : Streamable units) {x : Place p units i} (hm : x.draft.marker = true) {first : Nat}
    (hf : first ≤ x.index) :
    (∃ missed rest, AnnexB.nalUnits x.unit.bytes = missed ++ rest ∧ rest ≠ [] ∧
      first = (missed.flatMap (Plan.payloads p.budget)).length ∧
      x.due (x.soFar first) = some (AccessUnit.assembled x.unit.timestamp rest)) ∨
    x.due (x.soFar first) = none := by
  have hlt := x.index_lt
  rw [drafts, Plan.drafts, Plan.length_markLast] at hlt
  rcases FrameContent.hear_drop p.budget_piece_pos p.budget_whole_pos (AnnexB.nalUnits x.unit.bytes) first
    (hu.carriable x.unit x.unit_mem) (by omega) with ⟨missed, rest, hs, hc, -⟩ | he
  · have hne : rest ≠ [] := by
      rintro rfl
      rw [List.append_nil] at hs
      rw [hs, ← hc] at hlt
      omega
    exact .inl ⟨missed, rest, hs, hne, hc, hc ▸ due_rest hu hm hs hne⟩
  · rw [due, if_pos hm, soFar_of_marker hm, he]
    exact .inr rfl

end Place

theorem length_drafts_pos (hu : Streamable units) {u : AccessUnit} (h : u ∈ units) : 0 < (p.drafts u).length := by
  have hne := hu.nonempty u h
  have hempty := Plan.isEmpty_flatMap_payloads p.budget_piece_pos p.budget_whole_pos (AnnexB.nalUnits u.bytes)
  rw [drafts, Plan.drafts, Plan.length_markLast, List.length_pos_iff]
  rw [List.isEmpty_eq_false_iff.2 hne, List.isEmpty_eq_false_iff] at hempty
  exact hempty

theorem position_lt_succ (hu : Streamable units) {w : Nat} {u : AccessUnit} (h : units[w]? = some u) :
    p.position units w < p.position units (w + 1) := by
  have := length_drafts_pos (p := p) hu (List.mem_of_getElem? h)
  rw [position_succ h]
  omega

/-- When a unit has ended, the next packet belongs to the next unit. -/
theorem Place.number_next (hu : Streamable units) {x : Place p units i} {y : Place p units (i + 1)}
    (hn : x.number < y.number) (hm : x.draft.marker = true) : y.number = x.number + 1 := by
  have hend := x.marker_iff.1 hm
  have hle := y.position_le
  rcases Nat.lt_or_ge (x.number + 1) y.number with hlt | hge
  · obtain ⟨u, hget⟩ : ∃ u, units[x.number + 1]? = some u :=
      ⟨_, List.getElem?_eq_getElem (Nat.lt_trans hlt y.number_lt)⟩
    have h1 := position_lt_succ (p := p) hu hget
    have h2 : p.position units (x.number + 1 + 1) ≤ p.position units y.number := position_mono hlt
    omega
  · omega

/-! ## Following -/

/-- An assembler whose latest packet was that of place `x` with a frame that then held `content`; `older` are frames of
units before. -/
structure Follows (a : Assembler) (x : Place p units i) (content : FrameContent) (older : List Frame) : Prop where
  cipher : a.cipher = p.cipher
  lastSequence : a.lastSequence = some (nth p.nextSequence i)
  frames : ∃ used, a.frames =
    older ++ if x.draft.marker then [] else [⟨x.unit.timestamp, content, nth p.nextSequence i, used⟩]
  earlier : ∀ f ∈ older, ∃ v u, v < x.number ∧ units[v]? = some u ∧ f.timestamp = u.timestamp
  nodup : (older.map (·.timestamp)).Nodup

/-- What has come of the packet of place `y` when its frame held `content` then: a unit if one was due and the pool had
a buffer, and one more frame in the accounts if the packet began it. -/
structure Accounted (a : Assembler) (y : Place p units k) (content : FrameContent) (begins : Bool) (b : Assembler)
    (outcome : Except Fault (Option AccessUnit)) : Prop where
  outcome : outcome = a.pool.grant (y.due content)
  pool : b.pool = if (a.pool.granted (y.due content)).isSome then a.pool.lend else a.pool
  completed : b.stats.completed = a.stats.completed + if (a.pool.granted (y.due content)).isSome then 1 else 0
  frames : b.stats.dropped + b.pending + (if (y.due content).isSome then 1 else 0) =
    a.stats.dropped + a.pending + if begins then 1 else 0

theorem Follows.withPool {a : Assembler} {x : Place p units i} {content : FrameContent} {older : List Frame}
    (h : Follows a x content older) (pool : Pool) : Follows { a with pool } x content older :=
  ⟨h.cipher, h.lastSequence, h.frames, h.earlier, h.nodup⟩

variable {a : Assembler} {packet : Rtp.Packet}

theorem follows_of_concluded {b : Assembler} {y : Place p units k} {content : FrameContent} {older : List Frame}
    {n used : Nat} {begins : Bool} {outcome : Except Fault (Option AccessUnit)} (hy : y.Carries packet)
    (hc : a.cipher = p.cipher)
    (hb : Assembler.Concluded (a.noted packet n) older ⟨y.unit.timestamp, content, nth p.nextSequence k, used⟩
      y.draft.marker b outcome)
    (hearlier : ∀ f ∈ older, ∃ v u, v < y.number ∧ units[v]? = some u ∧ f.timestamp = u.timestamp)
    (hnodup : (older.map (·.timestamp)).Nodup)
    (hn : n + older.length + 1 = a.pending + if begins then 1 else 0) :
    Follows b y content older ∧ Accounted a y content begins b outcome := by
  have hdue : Frame.due ⟨y.unit.timestamp, content, nth p.nextSequence k, used⟩ y.draft.marker = y.due content := rfl
  refine ⟨⟨hb.cipher.trans hc, ?_, ⟨used, hb.frames⟩, hearlier, hnodup⟩, ⟨?_, ?_, ?_, ?_⟩⟩
  · rw [hb.lastSequence, ← hy.sequence]
    rfl
  · rw [hb.outcome, hdue]
    rfl
  · rw [hb.pool, hdue]
    rfl
  · rw [hb.completed, hdue]
    rfl
  · have hd := hb.dropped
    have hnoted : (a.noted packet n).stats.dropped = a.stats.dropped + n := rfl
    rw [hdue, hnoted] at hd
    rw [hd, Assembler.pending, hb.frames, List.length_append]
    cases hm : y.draft.marker with
    | false =>
      simp only [Place.due, hm, Bool.false_and, Bool.false_eq_true, if_false, Option.isSome_none, List.length_singleton]
      omega
    | true =>
      cases hu : y.due content <;>
        simp only [Option.isNone_none, Option.isNone_some, Option.isSome_none, Option.isSome_some, Bool.and_true,
          Bool.and_false, Bool.false_eq_true, if_true, if_false, List.length_nil] <;> omega

/-- The packet of a unit that has no frame yet begins one. -/
theorem follows_of_begins {y : Place p units k} (hd : (units.map (·.timestamp)).Nodup) (hy : y.Carries packet)
    (hc : a.cipher = p.cipher)
    (hearlier : ∀ f ∈ a.frames, ∃ v u, v < y.number ∧ units[v]? = some u ∧ f.timestamp = u.timestamp)
    (hnodup : (a.frames.map (·.timestamp)).Nodup) {content : FrameContent}
    (hh : a.heard packet
      (if Assembler.followsOn a.lastSequence (nth p.nextSequence k) then .intact [] none else .broken) = content) :
    ∃ older, Follows (a.process packet).1 y content older ∧
      Accounted a y content true (a.process packet).1 (a.process packet).2 := by
  have hother : ∀ e ∈ a.frames, e.timestamp ≠ packet.header.timestamp := by
    intro e he
    obtain ⟨v, u, hv, hu, ht⟩ := hearlier e he
    rw [ht, hy.timestamp]
    exact Place.timestamp_ne hd hu y.unit_at (Nat.ne_of_lt hv)
  obtain ⟨kept, n, hsub, hlen, hp⟩ := Assembler.process_fresh hother hnodup
  rw [hy.timestamp, hy.sequence, hh, hy.marker] at hp
  rw [hp]
  have hold : ∀ e ∈ kept, e.timestamp ≠ y.unit.timestamp := fun e he => hy.timestamp ▸ hother e (hsub.subset he)
  refine ⟨kept, follows_of_concluded hy hc (Assembler.concluded _ hold _) (fun f hf => hearlier f (hsub.subset hf))
    ((hsub.map _).nodup hnodup) ?_⟩
  rw [if_pos rfl, hlen]
  rfl

/-- The first packet that a new assembler gets begins a frame, whatever has been missed before. -/
theorem follows_first {y : Place p units k} (hd : (units.map (·.timestamp)).Nodup) (hy : y.Carries packet) {pool : Pool}
    {limit : Nat} (ha : a = Assembler.create p.cipher pool limit) :
    ∃ older, Follows (a.process packet).1 y (a.heard packet (.intact [] none)) older ∧
      Accounted a y (a.heard packet (.intact [] none)) true (a.process packet).1 (a.process packet).2 := by
  have hframes : a.frames = [] := congrArg Assembler.frames ha
  have hlast : a.lastSequence = none := congrArg Assembler.lastSequence ha
  refine follows_of_begins hd hy (congrArg Assembler.cipher ha) (fun f hf => ?_) ?_ ?_
  · rw [hframes] at hf
    cases hf
  · rw [hframes]
    exact List.nodup_nil
  · rw [hlast]
    rfl

/-- **From place to place.**  The frame of the next packet that arrives hears it on top of what it held, if no packet in
between has been missed. -/
theorem Follows.process {x : Place p units i} {y : Place p units k} {content content' : FrameContent}
    {older : List Frame} (hd : (units.map (·.timestamp)).Nodup) (h : Follows a x content older) (hlt : i < k)
    (hle : k ≤ i + 65536) (hy : y.Carries packet) (hh : a.heard packet (x.ongoing y content) = content') :
    ∃ older', Follows (a.process packet).1 y content' older' ∧
      Accounted a y content' (decide (x.number ≠ y.number)) (a.process packet).1 (a.process packet).2 := by
  have hfollows : nth p.nextSequence k = nth p.nextSequence i + 1 ↔ k = i + 1 := Serial.nth_follows_iff _ hlt hle
  obtain ⟨used, hframes⟩ := h.frames
  rcases x.later_cases y hlt with hn | ⟨hn, hm⟩
  · -- A new unit: what is left of the one before is now among the earlier frames.
    have hearlier : ∀ f ∈ a.frames, ∃ v u, v < y.number ∧ units[v]? = some u ∧ f.timestamp = u.timestamp := by
      intro f hf
      rw [hframes, List.mem_append] at hf
      rcases hf with hf | hf
      · obtain ⟨v, u, hv, hu⟩ := h.earlier f hf
        exact ⟨v, u, Nat.lt_trans hv hn, hu⟩
      · cases hm : x.draft.marker
        · simp only [hm, Bool.false_eq_true, if_false, List.mem_singleton] at hf
          exact ⟨x.number, x.unit, hn, x.unit_at, by rw [hf]⟩
        · simp [hm] at hf
    have hnodup : (a.frames.map (·.timestamp)).Nodup := by
      rw [hframes, List.map_append, List.nodup_append]
      refine ⟨h.nodup, by split <;> simp, ?_⟩
      intro t ht t' ht'
      obtain ⟨f, hf, rfl⟩ := List.mem_map.1 ht
      obtain ⟨v, u, hv, hu, hfu⟩ := h.earlier f hf
      have ht' : t' = x.unit.timestamp := by
        cases hm : x.draft.marker
        · simpa [hm] using ht'
        · simp [hm] at ht'
      rw [hfu, ht']
      exact Place.timestamp_ne hd hu x.unit_at (Nat.ne_of_lt hv)
    rw [decide_eq_true (Nat.ne_of_lt hn)]
    refine follows_of_begins hd hy h.cipher hearlier hnodup ?_
    rw [← hh, Place.ongoing, if_neg (Nat.ne_of_lt hn), h.lastSequence, Assembler.followsOn]
    simp only [decide_eq_true_eq, hfollows]
  · -- The same unit, whose frame is the last one.
    have hu := x.unit_eq y hn
    rw [hm, if_neg Bool.false_ne_true] at hframes
    have hold : ∀ e ∈ older, e.timestamp ≠ x.unit.timestamp := by
      intro e he
      obtain ⟨v, u, hv, hvu, ht⟩ := h.earlier e he
      rw [ht]
      exact Place.timestamp_ne hd hvu x.unit_at (Nat.ne_of_lt hv)
    have hp := Assembler.process_known hframes (hy.timestamp.trans (congrArg _ hu.symm)) hold
    simp only [hy.sequence, hfollows, hy.marker] at hp
    rw [Place.ongoing, if_pos hn] at hh
    rw [hp, hh, hu, decide_eq_false (fun hne => hne hn)]
    rw [hu] at hold
    refine ⟨older, follows_of_concluded hy h.cipher (Assembler.concluded _ hold _) (hn ▸ h.earlier) h.nodup ?_⟩
    rw [Assembler.pending, hframes, List.length_append]
    simp

/-! ## A stream to try things on -/

/-- A packetizer whose packets anyone can read. -/
def plain : Packetizer where
  payloadType := 96
  ssrc := 1
  mtu := 1200
  cipher := .identity
  room := by decide

/-- A refresh picture behind its parameter set, and two other pictures. -/
def sample : List AccessUnit :=
  [.assembled 0 [[0x67, 0x42], [0x65, 0x88]], .assembled 3000 [[0x41, 0x9a]], .assembled 6000 [[0x41, 0x9b]]]

theorem streamable_sample : Streamable sample := ⟨by decide, by decide, by decide⟩

end Packetizer
end VideoTransport
