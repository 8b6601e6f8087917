import VideoTransport.Inbound.Reorder
import VideoTransport.Proofs.Position
/-!
# Reordering — a reorder buffer in terms of positions

Items are taken in under the numbers of their positions.  As long as positions stay within half of the circle around
the cursor, the buffer behaves as if numbers did not wrap: the items that wait are those of a list of positions ahead
of the cursor (`Spans`), and an arrival releases the items of a gapless range of positions (`Spans.arrive`).
-/
namespace VideoTransport
namespace Reorder

open Serial (nth)

variable {α : Type} {start : Serial} {item : Nat → α}

/-- The items that wait when these are their positions. -/
def waitingAt (start : Serial) (item : Nat → α) (waiting : List Nat) : List (Serial × α) :=
  waiting.map fun i => (nth start i, item i)

/-- All positions of a list lie at `c` or ahead of it, within half of the circle. -/
def IsAhead (c : Nat) (waiting : List Nat) : Prop := ∀ i ∈ waiting, c ≤ i ∧ i < c + 32768

/-! ## Taking out -/

theorem takeOut_of_mem {c i : Nat} : ∀ {waiting : List Nat}, IsAhead c waiting → i ∈ waiting →
    takeOut (nth start i) (waitingAt start item waiting) = some (item i, waitingAt start item (waiting.erase i))
  | j :: rest, hw, hi => by
    obtain ⟨h1, h2⟩ := hw i hi
    obtain ⟨h3, h4⟩ := hw j List.mem_cons_self
    rw [waitingAt, List.map_cons, takeOut, ← waitingAt]
    by_cases hj : j = i
    · rw [if_pos (by rw [hj]), hj, List.erase_cons_head]
    · have hmem : i ∈ rest := (List.mem_cons.1 hi).resolve_left fun h => hj h.symm
      rw [if_neg fun h => hj ((Serial.nth_inj start (by omega) (by omega)).1 h),
        List.erase_cons_tail (by simpa using hj), takeOut_of_mem (fun k hk => hw k (List.mem_cons_of_mem j hk)) hmem]
      rfl

theorem takeOut_of_not_mem {c i : Nat} (hc : c ≤ i) (hi : i < c + 32768) : ∀ {waiting : List Nat}, IsAhead c waiting →
    i ∉ waiting → takeOut (nth start i) (waitingAt start item waiting) = none
  | [], _, _ => rfl
  | j :: rest, hw, hmem => by
    obtain ⟨h3, h4⟩ := hw j List.mem_cons_self
    rw [List.mem_cons, not_or] at hmem
    rw [waitingAt, List.map_cons, takeOut, ← waitingAt,
      if_neg fun h => hmem.1 ((Serial.nth_inj start (by omega) (by omega)).1 h).symm,
      takeOut_of_not_mem hc hi (fun k hk => hw k (List.mem_cons_of_mem j hk)) hmem.2]
    rfl

theorem any_waitingAt {c i : Nat} (hc : c ≤ i) (hi : i < c + 32768) {waiting : List Nat} (hw : IsAhead c waiting) :
    ((waitingAt start item waiting).any (·.1 = nth start i)) = decide (i ∈ waiting) := by
  rw [Bool.eq_iff_iff, List.any_eq_true, decide_eq_true_eq]
  constructor
  · rintro ⟨e, he, hn⟩
    obtain ⟨j, hj, rfl⟩ := List.mem_map.1 he
    obtain ⟨h3, h4⟩ := hw j hj
    obtain rfl := (Serial.nth_inj start (by omega) (by omega)).1 (of_decide_eq_true hn)
    exact hj
  · intro hmem
    exact ⟨_, List.mem_map_of_mem hmem, decide_eq_true rfl⟩

theorem nearest_waitingAt {c : Nat} : ∀ {rest : List Nat} {best : Nat}, IsAhead c (best :: rest) →
    ∃ m, m ∈ best :: rest ∧ (∀ j ∈ best :: rest, m ≤ j) ∧
      nearest (nth start c) (nth start best) (waitingAt start item rest) = nth start m
  | [], best, _ => ⟨best, List.mem_cons_self, fun j hj => Nat.le_of_eq (List.mem_singleton.1 hj).symm, rfl⟩
  | i :: rest, best, hw => by
    obtain ⟨h1, h2⟩ := hw best List.mem_cons_self
    obtain ⟨h3, h4⟩ := hw i (List.mem_cons_of_mem best List.mem_cons_self)
    have hlt :
        Serial.distance (nth start c) (nth start i) < Serial.distance (nth start c) (nth start best) ↔ i < best :=
      Serial.distance_nth_lt_iff start h3 (by omega) h1 (by omega)
    rw [waitingAt, List.map_cons, nearest, List.foldl_cons, ← nearest, ← waitingAt]
    simp only [hlt]
    by_cases hi : i < best
    · have hw' : IsAhead c (i :: rest) := fun j hj => hw j (List.mem_cons_of_mem best hj)
      obtain ⟨m, hm, hle, hn⟩ := nearest_waitingAt hw'
      refine ⟨m, List.mem_cons_of_mem best hm, fun j hj => ?_, by rw [if_pos hi, hn]⟩
      rcases List.mem_cons.1 hj with rfl | hj
      · exact Nat.le_trans (hle i List.mem_cons_self) (Nat.le_of_lt hi)
      · exact hle j hj
    · have hw' : IsAhead c (best :: rest) := fun j hj =>
        hw j (List.cons_subset_cons best (List.subset_cons_self i rest) hj)
      obtain ⟨m, hm, hle, hn⟩ := nearest_waitingAt hw'
      refine ⟨m, List.cons_subset_cons best (List.subset_cons_self i rest) hm, fun j hj => ?_, by rw [if_neg hi, hn]⟩
      rcases List.mem_cons.1 hj with rfl | hj
      · exact hle j List.mem_cons_self
      · rcases List.mem_cons.1 hj with rfl | hj
        · exact Nat.le_trans (hle best List.mem_cons_self) (Nat.not_lt.1 hi)
        · exact hle j (List.mem_cons_of_mem best hj)

/-! ## Runs -/

/-- A run from position `c` has `n` items, and `rest` are the positions that wait on. -/
structure IsRun (c : Nat) (waiting : List Nat) (n : Nat) (rest : List Nat) : Prop where
  run : ∀ j, c ≤ j → j < c + n → j ∈ waiting
  mem_rest : ∀ j, j ∈ rest ↔ j ∈ waiting ∧ c + n ≤ j
  stops : c + n ∉ waiting
  sublist : rest.Sublist waiting

theorem takeRun_waitingAt (start : Serial) (item : Nat → α) : ∀ {fuel c : Nat} {waiting : List Nat},
    waiting.length ≤ fuel → IsAhead c waiting → waiting.Nodup → ∃ n rest, IsRun c waiting n rest ∧
      takeRun fuel (nth start c) (waitingAt start item waiting) =
        ((List.range' c n).map item, waitingAt start item rest, nth start (c + n))
  | 0, c, waiting, hl, _, _ => by
    obtain rfl := List.length_eq_zero_iff.1 (Nat.le_zero.1 hl)
    exact ⟨0, [], ⟨fun j h1 h2 => absurd h2 (Nat.not_lt.2 h1), by simp, List.not_mem_nil, List.Sublist.refl []⟩, rfl⟩
  | fuel + 1, c, waiting, hl, hw, hn => by
    by_cases hc : c ∈ waiting
    · have hlen := List.length_erase_of_mem hc
      have hfuel : (waiting.erase c).length ≤ fuel := by omega
      have hw' : IsAhead (c + 1) (waiting.erase c) := by
        intro j hj
        obtain ⟨hne, hj⟩ := (List.Nodup.mem_erase_iff hn).1 hj
        obtain ⟨h1, h2⟩ := hw j hj
        omega
      obtain ⟨n, rest, hrun, htake⟩ := takeRun_waitingAt start item hfuel hw' (hn.erase c)
      refine ⟨n + 1, rest, ⟨fun j h1 h2 => ?_, fun j => ?_, fun hmem => ?_, hrun.sublist.trans List.erase_sublist⟩, ?_⟩
      · rcases Nat.eq_or_lt_of_le h1 with rfl | hlt
        · exact hc
        · exact List.mem_of_mem_erase (hrun.run j hlt (by omega))
      · rw [hrun.mem_rest, List.Nodup.mem_erase_iff hn]
        constructor
        · rintro ⟨⟨-, hj⟩, hle⟩
          exact ⟨hj, by omega⟩
        · rintro ⟨hj, hle⟩
          exact ⟨⟨by omega, hj⟩, by omega⟩
      · refine hrun.stops ((List.Nodup.mem_erase_iff hn).2 ⟨by omega, ?_⟩)
        rwa [Nat.add_assoc, Nat.add_comm 1 n]
      · rw [takeRun, takeOut_of_mem hw hc]
        simp only [Serial.nth_add_one, htake]
        rw [List.range'_succ, List.map_cons, Nat.add_assoc, Nat.add_comm 1 n]
    · refine ⟨0, waiting, ⟨fun j h1 h2 => absurd h2 (Nat.not_lt.2 h1), fun j => ?_, hc, List.Sublist.refl _⟩, ?_⟩
      · exact ⟨fun hj => ⟨hj, (hw j hj).1⟩, And.left⟩
      · rw [takeRun, takeOut_of_not_mem (Nat.le_refl c) (by omega) hw hc]
        rfl

/-! ## Collecting -/

/-- A buffer that has released something, whose cursor is at position `c` and in which the items at positions `waiting`
wait. -/
structure Spans (r : Reorder α) (start : Serial) (item : Nat → α) (c : Nat) (waiting : List Nat) : Prop where
  cursor : r.cursor = some (nth start c)
  hasReleased : r.hasReleased = true
  forced : r.forced = []
  pending : r.pending = waitingAt start item waiting
  nodup : waiting.Nodup
  ahead : ∀ i ∈ waiting, c < i ∧ i < c + 32768
  fits : waiting.length ≤ r.capacity

variable {r : Reorder α} {c i : Nat} {waiting : List Nat}

theorem Spans.isAhead (h : Spans r start item c waiting) : IsAhead c waiting :=
  fun j hj => ⟨Nat.le_of_lt (h.ahead j hj).1, (h.ahead j hj).2⟩

/-- What is ready is what was forced out, then a run. -/
theorem popReady_spans (hcursor : r.cursor = some (nth start c)) (hpending : r.pending = waitingAt start item waiting)
    (hw : IsAhead c waiting) (hn : waiting.Nodup) (hfits : waiting.length ≤ r.capacity)
    (hreleased : r.hasReleased = true ∨ c ∈ waiting) :
    ∃ n rest, IsRun c waiting n rest ∧ r.popReady.1 = r.forced ++ (List.range' c n).map item ∧
      Spans r.popReady.2 start item (c + n) rest ∧ r.popReady.2.capacity = r.capacity := by
  have hlen : waiting.length ≤ r.pending.length := Nat.le_of_eq (by rw [hpending, waitingAt, List.length_map])
  obtain ⟨n, rest, hrun, htake⟩ := takeRun_waitingAt start item hlen hw hn
  rw [← hpending] at htake
  refine ⟨n, rest, hrun, ?_⟩
  unfold popReady
  simp only [hcursor, htake, true_and, and_true]
  refine ⟨rfl, ?_, rfl, rfl, hn.sublist hrun.sublist, fun j hj => ?_, Nat.le_trans hrun.sublist.length_le hfits⟩
  · rcases hreleased with hr | hc
    · rw [hr]
      rfl
    · have hpos : n ≠ 0 := by
        rintro rfl
        exact hrun.stops hc
      simp [hpos]
  · obtain ⟨hmem, hle⟩ := (hrun.mem_rest j).1 hj
    have hne : j ≠ c + n := fun he => hrun.stops (he ▸ hmem)
    have := (hw j hmem).2
    omega

/-! ## Arrivals -/

/-- The arrival of position `i` releases the `n` positions from `m` on; then the cursor is at `c'`, and the positions
`rest` wait. -/
structure Arrives (c i : Nat) (waiting : List Nat) (m n c' : Nat) (rest : List Nat) : Prop where
  cursor : n = 0 ∧ c' = c ∨ 0 < n ∧ c ≤ m ∧ c' = m + n
  released : ∀ j, m ≤ j → j < m + n → j ∈ waiting ∨ j = i
  mem_rest : ∀ j, j ∈ rest ↔ (j ∈ waiting ∨ j = i) ∧ c' ≤ j

variable {m n c' : Nat} {rest : List Nat}

theorem Arrives.length_le (h : Arrives c i waiting m n c' rest) : n ≤ waiting.length + 1 := by
  have hsub : List.range' m n ⊆ i :: waiting := by
    intro j hj
    obtain ⟨h1, h2⟩ := List.mem_range'_1.1 hj
    rcases h.released j h1 h2 with hj | rfl
    · exact List.mem_cons_of_mem i hj
    · exact List.mem_cons_self
  have hnodup : (List.range' m n).Nodup := List.nodup_range' 1
  have hlen := hnodup.length_le_of_subset hsub
  rwa [List.length_range'] at hlen

theorem Arrives.cursor_eq (h : Arrives c i waiting c n c' rest) : c' = c + n := by
  rcases h.cursor with ⟨rfl, rfl⟩ | ⟨-, -, hc'⟩
  · rfl
  · exact hc'

theorem Spans.released_lt (h : Spans r start item c waiting) (ha : Arrives c i waiting m n c' rest)
    (hi : i < c + 32768) {j : Nat} (hm : m ≤ j) (hj : j < m + n) : j < c + 32768 := by
  rcases ha.released j hm hj with hw | rfl
  · exact (h.ahead j hw).2
  · exact hi

theorem Spans.cursor_le (h : Spans r start item c waiting) (ha : Arrives c i waiting m n c' rest)
    (hi : i < c + 32768) : c ≤ c' ∧ c' ≤ c + 32768 := by
  rcases ha.cursor with ⟨-, rfl⟩ | ⟨hn, hm, rfl⟩
  · omega
  · have := h.released_lt ha hi (j := m + n - 1) (by omega) (by omega)
    omega

/-- An item that is behind the cursor or waits already changes nothing. -/
theorem Spans.arrive_known (h : Spans r start item c waiting) (hi : i < c ∨ i ∈ waiting) {r' : Reorder α}
    (hr : r' = { r with dropped := r.dropped + 1 }) :
    ∃ rest, Arrives c i waiting c 0 c rest ∧ r'.popReady.1 = [] ∧ Spans r'.popReady.2 start item c rest ∧
      r'.popReady.2.capacity = r.capacity := by
  subst hr
  obtain ⟨n, rest, hrun, hitems, hspans, hcap⟩ := popReady_spans (r := { r with dropped := r.dropped + 1 }) h.cursor
    h.pending h.isAhead h.nodup h.fits (.inl h.hasReleased)
  have hz : n = 0 := by
    rcases Nat.eq_zero_or_pos n with hz | hpos
    · exact hz
    · exact absurd (h.ahead c (hrun.run c (Nat.le_refl c) (by omega))).1 (Nat.lt_irrefl c)
  subst hz
  refine ⟨rest, ⟨.inl ⟨rfl, rfl⟩, fun j h1 h2 => absurd h2 (Nat.not_lt.2 h1), fun j => ?_⟩, ?_, hspans, hcap⟩
  · rw [hrun.mem_rest]
    constructor
    · rintro ⟨hj, hle⟩
      exact ⟨.inl hj, hle⟩
    · rintro ⟨hj | rfl, hle⟩
      · exact ⟨hj, hle⟩
      · exact ⟨hi.resolve_left (Nat.not_lt.2 hle), hle⟩
  · rw [hitems]
    exact (List.append_nil _).trans h.forced

theorem forceNearest_waitingAt (hpending : r.pending = waitingAt start item waiting) (hne : waiting ≠ [])
    (hw : IsAhead c waiting) (hforced : r.forced = []) :
    ∃ m, m ∈ waiting ∧ (∀ j ∈ waiting, m ≤ j) ∧
      (r.forceNearest (nth start c)).pending = waitingAt start item (waiting.erase m) ∧
      (r.forceNearest (nth start c)).forced = [item m] ∧
      (r.forceNearest (nth start c)).cursor = some (nth start (m + 1)) ∧
      (r.forceNearest (nth start c)).hasReleased = true ∧
      (r.forceNearest (nth start c)).capacity = r.capacity := by
  obtain ⟨best, rest, rfl⟩ := List.exists_cons_of_ne_nil hne
  have hleast : ∃ m, m ∈ best :: rest ∧ (∀ j ∈ best :: rest, m ≤ j) ∧
      nearest (nth start c) (nth start best) (waitingAt start item rest) = nth start m := nearest_waitingAt hw
  obtain ⟨m, hm, hle, hnearest⟩ := hleast
  have hfull : (if r.capacity ≤ r.forced.length then r.forced.drop 1 else r.forced) = [] := by
    rw [hforced]
    exact ite_self []
  refine ⟨m, hm, hle, ?_⟩
  have hcons : waitingAt start item (best :: rest) = (nth start best, item best) :: waitingAt start item rest := rfl
  have htake : takeOut (nth start m) ((nth start best, item best) :: waitingAt start item rest) =
      some (item m, waitingAt start item ((best :: rest).erase m)) := takeOut_of_mem hw hm
  unfold forceNearest
  rw [hpending, hcons]
  simp only [hnearest, htake, hfull, Serial.nth_add_one, List.nil_append, and_self]

/-- When the nearest item is forced out, the run follows on it. -/
theorem popReady_forceNearest (hpending : r.pending = waitingAt start item waiting) (hne : waiting ≠ [])
    (hw : IsAhead c waiting) (hn : waiting.Nodup) (hforced : r.forced = []) (hfits : waiting.length ≤ r.capacity + 1) :
    ∃ m n rest, (m ∈ waiting ∧ ∀ j ∈ waiting, m ≤ j) ∧ (∀ j, m ≤ j → j < m + 1 + n → j ∈ waiting) ∧
      (∀ j, j ∈ rest ↔ j ∈ waiting ∧ m + 1 + n ≤ j) ∧
      (r.forceNearest (nth start c)).popReady.1 = (List.range' m (n + 1)).map item ∧
      Spans (r.forceNearest (nth start c)).popReady.2 start item (m + 1 + n) rest ∧
      (r.forceNearest (nth start c)).popReady.2.capacity = r.capacity := by
  obtain ⟨m, hm, hle, hpending', hforced', hcursor, hreleased, hcapacity⟩ :=
    forceNearest_waitingAt hpending hne hw hforced
  have hfits' : (waiting.erase m).length ≤ (r.forceNearest (nth start c)).capacity := by
    rw [List.length_erase_of_mem hm, hcapacity]
    omega
  have hahead : IsAhead (m + 1) (waiting.erase m) := by
    intro j hj
    obtain ⟨hjm, hj⟩ := hn.mem_erase_iff.1 hj
    have := hle j hj
    have := hw j hj
    have := hw m hm
    omega
  obtain ⟨n, rest, hrun, hitems, hspans, hcap⟩ :=
    popReady_spans hcursor hpending' hahead (hn.erase m) hfits' (.inl hreleased)
  refine ⟨m, n, rest, ⟨hm, hle⟩, fun j hj hj' => ?_, fun j => ?_, ?_, hspans, hcap.trans hcapacity⟩
  · rcases Nat.eq_or_lt_of_le hj with rfl | hlt
    · exact hm
    · exact List.mem_of_mem_erase (hrun.run j hlt hj')
  · rw [hrun.mem_rest, hn.mem_erase_iff]
    constructor
    · rintro ⟨⟨-, hj⟩, hj'⟩
      exact ⟨hj, hj'⟩
    · rintro ⟨hj, hj'⟩
      exact ⟨⟨by omega, hj⟩, hj'⟩
  · rw [hitems, hforced', List.range'_succ, List.map_cons]
    rfl

/-- An item that is new changes what waits; if there are too many then, the nearest one is forced out. -/
theorem Spans.arrive_new (h : Spans r start item c waiting) (hi : c ≤ i) (hmem : i ∉ waiting) (hi' : i < c + 32768)
    {r' : Reorder α} (hr : r' = r.insert (nth start c) (nth start i) (item i)) :
    ∃ m n c' rest, Arrives c i waiting m n c' rest ∧ (m = c ∨ c < i ∧ i ∉ waiting ∧ r.capacity ≤ waiting.length) ∧
      r'.popReady.1 = (List.range' m n).map item ∧ Spans r'.popReady.2 start item c' rest ∧
      r'.popReady.2.capacity = r.capacity := by
  have hall : ∀ j, j ∈ waiting ++ [i] ↔ j ∈ waiting ∨ j = i := fun j => by rw [List.mem_append, List.mem_singleton]
  have hahead : IsAhead c (waiting ++ [i]) := by
    intro j hj
    rcases (hall j).1 hj with hj | rfl
    · exact h.isAhead j hj
    · exact ⟨hi, hi'⟩
  have hnodup : (waiting ++ [i]).Nodup := by
    rw [List.nodup_append]
    exact ⟨h.nodup, by simp, fun j hj k hk he => hmem (by rw [← List.mem_singleton.1 hk, ← he]; exact hj)⟩
  have hpending : r.pending ++ [(nth start i, item i)] = waitingAt start item (waiting ++ [i]) := by
    rw [h.pending, waitingAt, waitingAt, List.map_append]
    rfl
  have hlen : (waiting ++ [i]).length = waiting.length + 1 := List.length_append
  let grown : Reorder α :=
    { r with cursor := some (nth start c), pending := waitingAt start item (waiting ++ [i]) }
  have hinsert : r' = if r.capacity < waiting.length + 1 then grown.forceNearest (nth start c) else grown := by
    have hany : (r.pending.any (·.1 = nth start i)) = false := by
      rw [h.pending, any_waitingAt hi hi' h.isAhead, decide_eq_false hmem]
    rw [hr, insert, hany, if_neg Bool.false_ne_true]
    simp only [hpending, waitingAt, List.length_map, hlen]
    rfl
  by_cases hfull : r.capacity < waiting.length + 1
  · rw [if_pos hfull] at hinsert
    subst hinsert
    have hfits : (waiting ++ [i]).length ≤ grown.capacity + 1 := hlen ▸ Nat.succ_le_succ h.fits
    obtain ⟨m, n, rest, ⟨hm, hle⟩, hrun, hrest, hitems, hspans, hcap⟩ := popReady_forceNearest (r := grown) rfl
      (List.append_ne_nil_of_right_ne_nil waiting (List.cons_ne_nil i [])) hahead hnodup h.forced hfits
    have hc : c ≤ m := (hahead m hm).1
    refine ⟨m, n + 1, m + 1 + n, rest, ⟨.inr ⟨Nat.succ_pos n, hc, by omega⟩, fun j h1 h2 => ?_, fun j => ?_⟩, ?_,
      hitems, hspans, hcap⟩
    · exact (hall j).1 (hrun j h1 (by omega))
    · rw [hrest, hall]
    · by_cases hic : i = c
      · exact .inl (Nat.le_antisymm (hic ▸ hle i ((hall i).2 (.inr rfl))) hc)
      · exact .inr ⟨by omega, hmem, Nat.le_of_lt_succ hfull⟩
  · rw [if_neg hfull] at hinsert
    subst hinsert
    have hfits : (waiting ++ [i]).length ≤ grown.capacity := hlen ▸ Nat.not_lt.1 hfull
    obtain ⟨n, rest, hrun, hitems, hspans, hcap⟩ :=
      popReady_spans (r := grown) rfl rfl hahead hnodup hfits (.inl h.hasReleased)
    refine ⟨c, n, c + n, rest, ⟨?_, fun j h1 h2 => (hall j).1 (hrun.run j h1 h2), fun j => ?_⟩, .inl rfl, ?_, hspans,
      hcap⟩
    · rcases Nat.eq_zero_or_pos n with rfl | hpos
      · exact .inl ⟨rfl, rfl⟩
      · exact .inr ⟨hpos, Nat.le_refl c, rfl⟩
    · rw [hrun.mem_rest, hall]
    · rw [hitems, show grown.forced = [] from h.forced, List.nil_append]

/-- **One arrival.**  An item within half of the circle around the cursor releases a gapless range of positions; what
waits on lies ahead of the new cursor.  The range begins at the cursor unless too many items wait. -/
theorem Spans.arrive (h : Spans r start item c waiting) (hi : i < c + 32768) (hc : c < i + 32768) :
    ∃ m n c' rest, Arrives c i waiting m n c' rest ∧ (m = c ∨ c < i ∧ i ∉ waiting ∧ r.capacity ≤ waiting.length) ∧
      (r.add (nth start i) (item i)).popReady.1 = (List.range' m n).map item ∧
      Spans (r.add (nth start i) (item i)).popReady.2 start item c' rest ∧
      (r.add (nth start i) (item i)).popReady.2.capacity = r.capacity := by
  have hcursor : r.cursor.getD (nth start i) = nth start c := by
    rw [h.cursor]
    rfl
  have hadd : r.add (nth start i) (item i) =
      if Serial.atOrAhead (nth start c) (nth start i) then r.insert (nth start c) (nth start i) (item i)
      else { r with dropped := r.dropped + 1 } := by
    unfold add
    simp only [hcursor, h.hasReleased, if_true]
  rcases Nat.lt_or_ge i c with hlt | hge
  · rw [Serial.behind_nth start hlt hc, if_neg Bool.false_ne_true] at hadd
    obtain ⟨rest, ha, hitems, hspans, hcap⟩ := h.arrive_known (.inl hlt) hadd
    exact ⟨c, 0, c, rest, ha, .inl rfl, hitems, hspans, hcap⟩
  · rw [Serial.atOrAhead_nth start hge hi, if_pos rfl] at hadd
    by_cases hmem : i ∈ waiting
    · have hknown : r.insert (nth start c) (nth start i) (item i) = { r with dropped := r.dropped + 1 } := by
        unfold insert
        rw [h.pending, any_waitingAt hge hi h.isAhead, decide_eq_true hmem, if_pos rfl, ← h.pending, ← h.cursor]
      obtain ⟨rest, ha, hitems, hspans, hcap⟩ := h.arrive_known (.inr hmem) (hadd.trans hknown)
      exact ⟨c, 0, c, rest, ha, .inl rfl, hitems, hspans, hcap⟩
    · exact h.arrive_new hge hmem hi hadd

/-- The first arrival waits, and the cursor is at it. -/
theorem add_ofCapacity (start : Serial) (item : Nat → α) (capacity i : Nat) :
    (ofCapacity capacity).add (nth start i) (item i) =
      { capacity := max capacity 1, pending := waitingAt start item [i], cursor := some (nth start i) } := by
  have hpos : ¬max capacity 1 < 1 := Nat.not_lt.2 (Nat.le_max_right capacity 1)
  have hself : Serial.atOrAhead (nth start i) (nth start i) = true :=
    Serial.atOrAhead_nth start (Nat.le_refl i) (by omega)
  unfold add ofCapacity
  simp only [Option.getD_none, hself, if_true]
  exact if_neg hpos

/-- **The first arrival** is released at once. -/
theorem spans_first (start : Serial) (item : Nat → α) (capacity i : Nat) :
    ((ofCapacity capacity).add (nth start i) (item i)).popReady.1 = [item i] ∧
      Spans ((ofCapacity capacity).add (nth start i) (item i)).popReady.2 start item (i + 1) [] ∧
      ((ofCapacity capacity).add (nth start i) (item i)).popReady.2.capacity = max capacity 1 := by
  let r : Reorder α := { capacity := max capacity 1, pending := waitingAt start item [i], cursor := some (nth start i) }
  rw [add_ofCapacity]
  have hahead : IsAhead i [i] := by
    intro j hj
    rw [List.mem_singleton] at hj
    omega
  obtain ⟨n, rest, hrun, hitems, hspans, hcap⟩ := popReady_spans (r := r) rfl rfl hahead (by simp)
    (Nat.le_max_right capacity 1) (.inr (List.mem_singleton.2 rfl))
  have hone : n = 1 := by
    have hstops : n ≠ 0 := by
      rintro rfl
      exact hrun.stops (List.mem_singleton.2 rfl)
    rcases Nat.lt_or_ge 1 n with hlt | hge
    · have := List.mem_singleton.1 (hrun.run (i + 1) (by omega) (by omega))
      omega
    · omega
  subst hone
  have hrest : rest = [] := by
    refine List.eq_nil_iff_forall_not_mem.2 fun j hj => ?_
    obtain ⟨hmem, hle⟩ := (hrun.mem_rest j).1 hj
    rw [List.mem_singleton] at hmem
    omega
  subst hrest
  exact ⟨hitems, hspans, hcap⟩

end Reorder
end VideoTransport
