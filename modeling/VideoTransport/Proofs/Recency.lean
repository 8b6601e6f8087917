import Mathlib.Data.List.Pairwise
import VideoTransport.Proofs.Stages
/-!
# Recency — an assembler beside a cache of times

A cache of bounded size remembers times: each packet touches its time, a new time in a full cache makes it forget the
one that was touched least recently, and the marker takes a time out.  Whatever the packets hold and whatever becomes of
the frames that end, the frames in the making are those of the times that the cache remembers, and the frames given up
are those it has forgotten and those that were ended unfinished (`remembers_after`).
-/
namespace VideoTransport

/-- The times that a cache remembers, the least recently touched first, and how many it has forgotten to make room. -/
structure Recency where
  times : List UInt32 := []
  forgotten : Nat := 0
  deriving DecidableEq, Repr

namespace Recency

def touch (capacity : Nat) (r : Recency) (t : UInt32) : Recency :=
  if t ∈ r.times then { r with times := r.times.erase t ++ [t] }
  else if capacity ≤ r.times.length then ⟨r.times.tail ++ [t], r.forgotten + 1⟩
  else { r with times := r.times ++ [t] }

/-- A packet touches its time, and with the marker takes it out. -/
def hear (capacity : Nat) (r : Recency) (h : Rtp.Header) : Recency :=
  let r := r.touch capacity h.timestamp
  if h.marker then { r with times := r.times.erase h.timestamp } else r

def hearAll (capacity : Nat) (headers : List Rtp.Header) : Recency := headers.foldl (hear capacity) {}

/-- What is remembered besides a time that has been touched. -/
def others (capacity : Nat) (r : Recency) (t : UInt32) : List UInt32 :=
  if t ∈ r.times then r.times.erase t else if capacity ≤ r.times.length then r.times.tail else r.times

variable {capacity : Nat} {r : Recency} {t : UInt32}

theorem times_touch : (r.touch capacity t).times = r.others capacity t ++ [t] := by
  unfold touch others
  split
  · rfl
  · split <;> rfl

theorem forgotten_touch : (r.touch capacity t).forgotten =
    r.forgotten + (decide (t ∉ r.times ∧ capacity ≤ r.times.length)).toNat := by
  unfold touch
  by_cases ht : t ∈ r.times
  · simp [ht]
  · by_cases hfull : capacity ≤ r.times.length <;> simp [ht, hfull]

theorem others_sublist : (r.others capacity t).Sublist r.times := by
  unfold others
  split
  · exact List.erase_sublist
  · split
    · exact List.tail_sublist _
    · exact List.Sublist.refl _

theorem not_mem_others (hn : r.times.Nodup) : t ∉ r.others capacity t := by
  unfold others
  split
  · exact hn.not_mem_erase
  · rename_i ht
    split
    · exact fun h => ht ((List.tail_sublist _).subset h)
    · exact ht

theorem times_hear (hn : r.times.Nodup) (h : Rtp.Header) :
    (r.hear capacity h).times = r.others capacity h.timestamp ++ if h.marker then [] else [h.timestamp] := by
  unfold hear
  cases h.marker with
  | false => exact times_touch
  | true =>
    simp only [if_true, times_touch]
    rw [List.erase_append_right _ (not_mem_others hn), List.erase_cons_head]

theorem forgotten_hear (h : Rtp.Header) :
    (r.hear capacity h).forgotten = (r.touch capacity h.timestamp).forgotten := by
  unfold hear
  cases h.marker <;> rfl

end Recency

namespace Assembler

/-- When the frame of a time was touched last. -/
def rank (a : Assembler) (t : UInt32) : Nat := ((a.find? t).map (·.lastUsed)).getD 0

theorem rank_of_find? {a : Assembler} {t : UInt32} {f : Frame} (h : a.find? t = some f) : a.rank t = f.lastUsed := by
  rw [rank, h]
  rfl

/-- A cache remembers the times of an assembler's frames, in the order in which they were touched last. -/
structure Remembers (r : Recency) (a : Assembler) : Prop where
  same : ∀ t, t ∈ r.times ↔ (a.find? t).isSome = true
  ordered : r.times.Pairwise fun s t => a.rank s < a.rank t
  past : ∀ t, a.rank t ≤ a.clock

namespace Remembers

variable {a : Assembler} {r : Recency}

theorem nodup (h : Remembers r a) : r.times.Nodup :=
  h.ordered.imp fun hlt heq => absurd (heq ▸ hlt) (Nat.lt_irrefl _)

theorem eq_of_rank_eq (h : Remembers r a) {s t : UInt32} (hs : (a.find? s).isSome = true)
    (ht : (a.find? t).isSome = true) (heq : a.rank s = a.rank t) : s = t := by
  have hne : r.times.Pairwise fun s t => a.rank s ≠ a.rank t := h.ordered.imp Nat.ne_of_lt
  have hsymm : Std.Symm fun s t => a.rank s ≠ a.rank t := ⟨fun _ _ hst => hst.symm⟩
  by_contra hst
  exact hne.forall ((h.same s).2 hs) ((h.same t).2 ht) hst heq

theorem length (h : Remembers r a) (ht : a.Tidy) : r.times.length = a.pending := by
  have hperm : r.times.Perm (a.frames.map (·.timestamp)) := by
    refine (List.perm_ext_iff_of_nodup h.nodup ht.nodup).2 fun t => ?_
    rw [h.same, List.mem_map]
    constructor
    · intro hsome
      obtain ⟨f, hf⟩ := Option.isSome_iff_exists.1 hsome
      exact ⟨f, of_find?_eq_some hf⟩
    · rintro ⟨f, hf, rfl⟩
      rw [ht.find?_of_mem hf]
      rfl
  rw [hperm.length_eq, List.length_map]
  rfl

/-- In a full table the frame that gives way is that of the first time. -/
theorem givesWay (h : Remembers r a) (ht : a.Tidy) {time : UInt32} (hnew : a.find? time = none)
    (hfull : a.limit ≤ a.pending) : ∃ f rest, a.givesWay time = some f ∧ r.times = f.timestamp :: rest := by
  obtain ⟨f, hgives⟩ : ∃ f, a.givesWay time = some f := by
    rw [a.givesWay_of_none hnew, if_pos hfull]
    cases hframes : a.frames with
    | nil =>
      have hpos := ht.limit_pos
      rw [pending, hframes] at hfull
      exact absurd (Nat.lt_of_lt_of_le hpos hfull) (Nat.lt_irrefl 0)
    | cons best others => exact ⟨_, rfl⟩
  obtain ⟨-, -, hf, hleast⟩ := ht.givesWay_eq_some hgives
  have hfind := ht.find?_of_mem hf
  have hmem : f.timestamp ∈ r.times := (h.same _).2 (by rw [hfind]; rfl)
  have hordered := h.ordered
  refine ⟨f, r.times.tail, hgives, ?_⟩
  cases htimes : r.times with
  | nil =>
    rw [htimes] at hmem
    cases hmem
  | cons first rest =>
    rw [htimes] at hmem hordered
    rcases List.mem_cons.1 hmem with heq | hrest
    · rw [heq, List.tail_cons]
    · -- were it a later one, the first would have been touched before the frame touched least recently
      have hlt := (List.pairwise_cons.1 hordered).1 _ hrest
      obtain ⟨g, hg⟩ := Option.isSome_iff_exists.1 ((h.same first).1 (htimes ▸ List.mem_cons_self))
      have hle := hleast g (of_find?_eq_some hg).1
      rw [rank_of_find? hg, rank_of_find? hfind] at hlt
      omega

/-- What the cache still remembers besides the time of a packet are the other times that the table still holds. -/
theorem mem_others (h : Remembers r a) (ht : a.Tidy) (time t : UInt32) :
    t ∈ r.others a.limit time ↔
      t ≠ time ∧ (a.givesWay time).any (·.timestamp = t) = false ∧ (a.find? t).isSome = true := by
  have hlength := h.length ht
  unfold Recency.others
  split
  · rename_i hmem
    obtain ⟨f, hf⟩ := Option.isSome_iff_exists.1 ((h.same time).1 hmem)
    rw [h.nodup.mem_erase_iff, h.same, a.givesWay_of_some hf]
    simp
  · rename_i hmem
    have hnew : a.find? time = none := Option.not_isSome_iff_eq_none.1 fun hsome => hmem ((h.same time).2 hsome)
    split
    · rename_i hfull
      obtain ⟨f, rest, hgives, htimes⟩ := h.givesWay ht hnew (hlength ▸ hfull)
      have hn := h.nodup
      rw [htimes, List.nodup_cons] at hn
      rw [hgives, ← h.same, htimes, List.tail_cons, List.mem_cons]
      constructor
      · intro hrest
        refine ⟨fun heq => ?_, ?_, .inr hrest⟩
        · rw [← heq, htimes] at hmem
          exact hmem (List.mem_cons_of_mem _ hrest)
        · simp only [Option.any_some, decide_eq_false_iff_not]
          exact fun heq => hn.1 (heq ▸ hrest)
      · rintro ⟨-, hkept, rfl | hrest⟩
        · simp at hkept
        · exact hrest
    · rename_i hroom
      rw [a.givesWay_of_none hnew, if_neg fun hfull => hroom (hlength ▸ hfull), h.same]
      constructor
      · intro hsome
        refine ⟨fun heq => ?_, rfl, hsome⟩
        rw [heq, hnew] at hsome
        cases hsome
      · exact fun hkept => hkept.2.2

/-- **A packet** is heard by the cache as by the assembler. -/
theorem process (h : Remembers r a) (ht : a.Tidy) (p : Rtp.Packet) :
    Remembers (r.hear a.limit p.header) (a.process p).1 := by
  have htable := a.find?_process p
  have hclock := (a.process_keeps p).2.2.1
  have htimes : (r.hear a.limit p.header).times = _ := Recency.times_hear h.nodup p.header
  have hused : (a.frameOf p).lastUsed = a.clock + 1 := (a.touch_ticks _ _).1
  -- the others keep their frames, so their ranks
  have hothers (t : UInt32) (hmem : t ∈ r.others a.limit p.header.timestamp) : (a.process p).1.find? t = a.find? t := by
    obtain ⟨hne, hkept, -⟩ := (h.mem_others ht _ t).1 hmem
    rw [htable, if_neg hne, hkept, if_neg Bool.false_ne_true]
  have hrank (t : UInt32) (hmem : t ∈ r.others a.limit p.header.timestamp) : (a.process p).1.rank t = a.rank t := by
    rw [rank, rank, hothers t hmem]
  refine ⟨fun t => ?_, ?_, fun t => ?_⟩
  · rw [htimes, List.mem_append, h.mem_others ht, htable]
    by_cases hown : t = p.header.timestamp
    · cases p.header.marker <;> simp [hown]
    · cases (a.givesWay p.header.timestamp).any (·.timestamp = t) <;> cases p.header.marker <;> simp [hown]
  · rw [htimes, List.pairwise_append]
    refine ⟨?_, ?_, fun s hs t hmem => ?_⟩
    · refine (h.ordered.sublist Recency.others_sublist).imp_of_mem fun hs ht hlt => ?_
      rw [hrank _ hs, hrank _ ht]
      exact hlt
    · cases p.header.marker <;> simp
    · have hpast := h.past s
      cases hm : p.header.marker with
      | true => simp [hm] at hmem
      | false =>
        obtain rfl : t = p.header.timestamp := by simpa [hm] using hmem
        have hown : (a.process p).1.rank p.header.timestamp = a.clock + 1 := by
          rw [rank, htable, if_pos rfl, hm, ← hused]
          rfl
        rw [hrank s hs, hown]
        omega
  · have hpast := h.past t
    rw [hclock, rank, htable]
    by_cases hown : t = p.header.timestamp
    · cases p.header.marker <;> simp [hown, hused]
    · cases hgone : (a.givesWay p.header.timestamp).any (·.timestamp = t) with
      | true => simp [hown]
      | false =>
        simp only [hown, Bool.false_eq_true, if_false]
        exact Nat.le_succ_of_le hpast

/-- The cache forgets a time when a frame gives way. -/
theorem forgotten_hear (h : Remembers r a) (ht : a.Tidy) (header : Rtp.Header) :
    (r.hear a.limit header).forgotten = r.forgotten + (a.crowdsOut header.timestamp).toNat := by
  have hnew : header.timestamp ∉ r.times ↔ (a.find? header.timestamp).isNone = true := by
    rw [h.same, Option.isNone_iff_eq_none, Option.not_isSome_iff_eq_none]
  have hne : a.limit ≤ a.pending → a.frames ≠ [] := fun hfull =>
    List.length_pos_iff.1 (Nat.lt_of_lt_of_le ht.limit_pos hfull)
  have hcrowds : decide (header.timestamp ∉ r.times ∧ a.limit ≤ r.times.length) = a.crowdsOut header.timestamp := by
    rw [crowdsOut, Bool.eq_iff_iff, Bool.and_eq_true_iff, decide_eq_true_iff, decide_eq_true_iff, hnew, h.length ht]
    exact and_congr_right fun _ => ⟨fun hfull => ⟨hfull, hne hfull⟩, And.left⟩
  rw [Recency.forgotten_hear, Recency.forgotten_touch, hcrowds]

end Remembers

/-! ## Calls -/

/-- Whether a packet has brought nothing. -/
def isNothing : Except Fault (Option AccessUnit) → Bool
  | .ok none => true
  | _ => false

/-- How many calls end a frame that is not finished. -/
def unfinished : Assembler → List Call → Nat
  | _, [] => 0
  | a, c :: rest => (c.packet.header.marker && isNothing (a.answer c)).toNat + (a.next c).unfinished rest

theorem isNothing_grant (pool : Pool) (due : Option AccessUnit) : isNothing (pool.grant due) = due.isNone := by
  cases due with
  | none => rfl
  | some u =>
    by_cases hroom : pool.HasRoom
    · rw [Pool.grant, if_pos hroom]
      rfl
    · rw [Pool.grant, if_neg hroom]
      rfl

/-- **Frames are given up** to make room and when they end unfinished. -/
theorem dropped_process (a : Assembler) (p : Rtp.Packet) :
    (a.process p).1.stats.dropped =
      a.stats.dropped + (a.crowdsOut p.header.timestamp).toNat +
        (p.header.marker && isNothing (a.process p).2).toNat := by
  have hnothing : (p.header.marker && isNothing (a.process p).2) =
      (p.header.marker && (a.frameOf p).content.finished?.isNone) := by
    rw [(a.process_due p).1, isNothing_grant, due, Frame.due]
    cases p.header.marker with
    | false => rfl
    | true => rw [if_pos rfl, FrameContent.unit?, Option.isNone_map]
  rw [hnothing, (a.process_stats p).2.1, givenUp, Nat.add_assoc]

theorem Remembers.next {a : Assembler} {r : Recency} (h : Remembers r a) (ht : a.Tidy) (c : Call) :
    Remembers (r.hear a.limit c.packet.header) (a.next c) :=
  Remembers.process (a := a.met c) ⟨h.same, h.ordered, h.past⟩ (ht.met c) c.packet

theorem Remembers.after : ∀ (calls : List Call) {a : Assembler} {r : Recency}, Remembers r a → a.Tidy →
    let r' := (calls.map (·.packet.header)).foldl (Recency.hear a.limit) r
    Remembers r' (a.after calls) ∧
      (a.after calls).stats.dropped + r.forgotten = a.stats.dropped + r'.forgotten + a.unfinished calls
  | [], _, _, h, _ => ⟨h, rfl⟩
  | c :: rest, a, r, h, ht => by
    have hlimit : (a.next c).limit = a.limit := (process_keeps (a.met c) c.packet).2.1
    have hforgotten := h.forgotten_hear ht c.packet.header
    have hdropped : (a.next c).stats.dropped = a.stats.dropped + (a.crowdsOut c.packet.header.timestamp).toNat +
        (c.packet.header.marker && isNothing (a.answer c)).toNat := dropped_process (a.met c) c.packet
    obtain ⟨hremembers, hrest⟩ := Remembers.after rest (h.next ht c) (ht.next c)
    rw [hlimit] at hremembers hrest
    refine ⟨hremembers, ?_⟩
    rw [unfinished, List.map_cons, List.foldl_cons]
    change ((a.next c).after rest).stats.dropped + _ = _
    omega

theorem Remembers.create (cipher : Cipher) (pool : Pool) (limit : Nat) : Remembers {} (create cipher pool limit) where
  same _ := ⟨fun h => absurd h List.not_mem_nil, fun h => absurd h Bool.false_ne_true⟩
  ordered := .nil
  past _ := Nat.le_refl 0

/-- **What calls leave in the table** is what a cache of its size remembers of their packets, and the frames given up
are those it has forgotten and those that ended unfinished. -/
theorem remembers_after (cipher : Cipher) (pool : Pool) (limit : Nat) (calls : List Call) :
    let fresh := create cipher pool limit
    let r := Recency.hearAll (max limit 1) (calls.map (·.packet.header))
    Remembers r (fresh.after calls) ∧
      (fresh.after calls).stats.dropped = r.forgotten + fresh.unfinished calls := by
  intro fresh r
  obtain ⟨hremembers, hdropped⟩ := Remembers.after calls (.create cipher pool limit) (.create cipher pool limit)
  refine ⟨hremembers, ?_⟩
  have hcounted : (fresh.after calls).stats.dropped + 0 = 0 + r.forgotten + fresh.unfinished calls := hdropped
  omega

end Assembler
end VideoTransport
