import VideoTransport.Proofs.Assembly
/-!
# Table — the frames that any traffic leaves in the making

Whatever packets an assembler has been handed, its table holds at most `limit` frames, no two of them with one
timestamp (`Reachable.tidy`).  So there is always room for one more frame once at most one has been given up, and that
one is a frame that was touched least recently (`spared_of_room`, `spared_of_full`).
-/
namespace VideoTransport
namespace Assembler

/-! ## The least recent frame -/

theorem leastRecent_le : ∀ (frames : List Frame) (best : Frame),
    ∀ g ∈ best :: frames, (leastRecent best frames).lastUsed ≤ g.lastUsed
  | [], best, g, hg => by
    rw [List.mem_singleton.1 hg]
    exact Nat.le_refl _
  | f :: rest, best, g, hg => by
    let best' : Frame := if f.lastUsed < best.lastUsed then f else best
    have hbest' : best'.lastUsed ≤ f.lastUsed ∧ best'.lastUsed ≤ best.lastUsed := by
      by_cases h : f.lastUsed < best.lastUsed
      · simp only [best', if_pos h]
        omega
      · simp only [best', if_neg h]
        omega
    have ih := leastRecent_le rest best'
    have hhead := ih best' List.mem_cons_self
    rw [leastRecent, List.foldl_cons, ← leastRecent]
    rcases List.mem_cons.1 hg with rfl | hg
    · exact Nat.le_trans hhead hbest'.2
    rcases List.mem_cons.1 hg with rfl | hg
    · exact Nat.le_trans hhead hbest'.1
    · exact ih g (List.mem_cons_of_mem _ hg)

/-- A frame of the table that was touched least recently, between those before and those behind it. -/
structure LeastRecent (frames before : List Frame) (f : Frame) (after : List Frame) : Prop where
  split : frames = before ++ f :: after
  least : ∀ g ∈ frames, f.lastUsed ≤ g.lastUsed

theorem LeastRecent.length {frames before after : List Frame} {f : Frame} (h : LeastRecent frames before f after) :
    frames.length = (before ++ after).length + 1 := by
  rw [h.split, List.length_append, List.length_cons, List.length_append, Nat.add_assoc]

theorem withoutLeast_split {frames : List Frame} (hne : frames ≠ []) (hn : (frames.map (·.timestamp)).Nodup) :
    ∃ before f after, LeastRecent frames before f after ∧ withoutLeast frames = before ++ after := by
  obtain ⟨best, rest, rfl⟩ := List.exists_cons_of_ne_nil hne
  obtain ⟨before, after, hs⟩ := List.append_of_mem (leastRecent_mem rest best)
  refine ⟨before, leastRecent best rest, after, ⟨hs, leastRecent_le rest best⟩, ?_⟩
  rw [withoutLeast, hs]
  exact remove_between (hs ▸ hn)

theorem spared_of_room {a : Assembler} (h : a.pending < a.limit) : a.spared = a.frames := if_neg (Nat.not_le.2 h)

/-! ## What every packet preserves -/

/-- A table that is not overfull and in which a timestamp tells one frame from the others. -/
structure Tidy (a : Assembler) : Prop where
  limit_pos : 0 < a.limit
  bounded : a.pending ≤ a.limit
  nodup : (a.frames.map (·.timestamp)).Nodup

/-- **In a full table exactly one frame gives way**, one that was touched least recently. -/
theorem Tidy.spared_of_full {a : Assembler} (h : a.Tidy) (hfull : a.limit ≤ a.pending) :
    ∃ before f after, LeastRecent a.frames before f after ∧ a.spared = before ++ after := by
  have hne : a.frames ≠ [] := List.length_pos_iff.1 (Nat.lt_of_lt_of_le h.limit_pos hfull)
  obtain ⟨before, f, after, hleast, hkept⟩ := withoutLeast_split hne h.nodup
  exact ⟨before, f, after, hleast, (if_pos hfull).trans hkept⟩

theorem Tidy.length_spared {a : Assembler} (h : a.Tidy) : a.spared.length + 1 ≤ a.limit := by
  by_cases hfull : a.limit ≤ a.pending
  · obtain ⟨before, f, after, hleast, hkept⟩ := h.spared_of_full hfull
    rw [hkept, ← hleast.length]
    exact h.bounded
  · rw [spared_of_room (Nat.not_le.1 hfull)]
    exact Nat.not_le.1 hfull

theorem Tidy.create (cipher : Cipher) (pool : Pool) (limit : Nat) : (create cipher pool limit).Tidy where
  limit_pos := Nat.le_max_right limit 1
  bounded := Nat.zero_le _
  nodup := List.nodup_nil

theorem Tidy.of_sublist {a b : Assembler} (h : a.Tidy) (hlimit : b.limit = a.limit)
    (hframes : (b.frames.map (·.timestamp)).Sublist (a.frames.map (·.timestamp))) : b.Tidy where
  limit_pos := hlimit ▸ h.limit_pos
  bounded := by
    have hlen := hframes.length_le
    rw [List.length_map, List.length_map] at hlen
    exact hlimit ▸ Nat.le_trans hlen h.bounded
  nodup := h.nodup.sublist hframes

theorem timestamp_replace (f : Frame) (frames : List Frame) :
    (replace f frames).map (·.timestamp) = frames.map (·.timestamp) := by
  rw [replace, List.map_map]
  refine List.map_congr_left fun g _ => ?_
  by_cases h : g.timestamp = f.timestamp
  · exact (congrArg Frame.timestamp (if_pos h)).trans h.symm
  · exact congrArg Frame.timestamp (if_neg h)

theorem Tidy.touch {a : Assembler} (h : a.Tidy) (timestamp : UInt32) (s : Serial) :
    (a.touch timestamp s).2.Tidy ∧ (a.touch timestamp s).2.cipher = a.cipher := by
  cases hfind : a.find? timestamp with
  | some f =>
    rw [touch_of_some hfind]
    exact ⟨⟨h.limit_pos, h.bounded, h.nodup⟩, rfl⟩
  | none =>
    have hnew : timestamp ∉ a.spared.map (·.timestamp) := by
      intro hmem
      obtain ⟨g, hg, hts⟩ := List.mem_map.1 hmem
      exact List.find?_eq_none.1 hfind g (a.spared_sublist.subset hg) (decide_eq_true hts)
    rw [touch_of_none hfind h.nodup]
    refine ⟨⟨h.limit_pos, ?_, ?_⟩, rfl⟩
    · rw [pending, List.length_append]
      exact h.length_spared
    · rw [List.map_append, List.nodup_append]
      refine ⟨h.nodup.sublist (a.spared_sublist.map _), List.pairwise_singleton _ _, fun t ht t' ht' he => hnew ?_⟩
      obtain rfl : t' = timestamp := List.mem_singleton.1 ht'
      exact he ▸ ht

/-- Ending a frame takes it out of the table, whatever comes of it. -/
theorem finish_keeps (a : Assembler) (f : Frame) :
    (a.finish f).1.frames = remove f.timestamp a.frames ∧ (a.finish f).1.limit = a.limit ∧
      (a.finish f).1.cipher = a.cipher ∧ (a.finish f).1.stats.malformed = a.stats.malformed := by
  cases hu : f.content.unit? f.timestamp with
  | none =>
    rw [finish_unfinished hu]
    exact ⟨rfl, rfl, rfl, rfl⟩
  | some u =>
    by_cases hroom : a.pool.HasRoom
    · rw [finish_lent hu hroom]
      exact ⟨rfl, rfl, rfl, rfl⟩
    · rw [finish_exhausted hu hroom]
      exact ⟨rfl, rfl, rfl, rfl⟩

theorem Tidy.finish {a : Assembler} (h : a.Tidy) (f : Frame) :
    (a.finish f).1.Tidy ∧ (a.finish f).1.cipher = a.cipher := by
  obtain ⟨hframes, hlimit, hcipher, -⟩ := finish_keeps a f
  exact ⟨h.of_sublist hlimit (hframes ▸ List.filter_sublist.map _), hcipher⟩

/-- **A packet keeps the table tidy.** -/
theorem Tidy.process {a : Assembler} (h : a.Tidy) (p : Rtp.Packet) :
    (a.process p).1.Tidy ∧ (a.process p).1.cipher = a.cipher := by
  obtain ⟨htidy, hcipher⟩ := h.touch p.header.timestamp p.header.sequence
  unfold Assembler.process
  generalize a.touch p.header.timestamp p.header.sequence = touched at htidy hcipher
  obtain ⟨f, b⟩ := touched
  have hheard : ∀ (content : FrameContent) (stats : AssemblerStats),
      Tidy { b with frames := replace { f with content } b.frames, stats } := fun content stats =>
    htidy.of_sublist rfl ((timestamp_replace { f with content } b.frames).symm ▸ List.Sublist.refl _)
  by_cases hm : p.header.marker = true
  · simp only [if_pos hm]
    exact ⟨((hheard _ _).finish _).1, ((hheard _ _).finish _).2.trans hcipher⟩
  · simp only [if_neg hm]
    exact ⟨hheard _ _, hcipher⟩

/-! ## Traffic -/

/-- The assemblers that packets lead to, whatever becomes of the pool in between. -/
inductive Reachable (cipher : Cipher) : Assembler → Prop
  | create (pool : Pool) (limit : Nat) : Reachable cipher (create cipher pool limit)
  | process {a : Assembler} (p : Rtp.Packet) (h : Reachable cipher a) : Reachable cipher (a.process p).1
  | withPool {a : Assembler} (pool : Pool) (h : Reachable cipher a) : Reachable cipher { a with pool }

/-- **Any traffic leaves a tidy table**, and the cipher is that of the beginning. -/
theorem Reachable.tidy {cipher : Cipher} {a : Assembler} (h : Reachable cipher a) : a.Tidy ∧ a.cipher = cipher := by
  induction h with
  | create pool limit => exact ⟨.create cipher pool limit, rfl⟩
  | process p _ ih => exact ⟨(ih.1.process p).1, (ih.1.process p).2.trans ih.2⟩
  | withPool pool _ ih => exact ⟨⟨ih.1.limit_pos, ih.1.bounded, ih.1.nodup⟩, ih.2⟩

end Assembler
end VideoTransport
