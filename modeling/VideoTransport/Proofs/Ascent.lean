import Mathlib.Data.List.Chain
import VideoTransport.Proofs.Conservation
import VideoTransport.Proofs.Reordering
/-!
# Ascent — the order in which items are released

Items come with any numbers and are collected for after each arrival.  What is released then ascends: each number is
ahead of the one before, by half of the circle at most, and what waits lies ahead of the cursor, which is right behind
the last item released (`replay_inTurn_ascends`).  The invariant unrolls the circle: the item released last has a
position, all that wait have later ones, and a new item is given the first position from the cursor on that has its
number (`Settled.take`).
-/
namespace VideoTransport

/-- Whether `t` comes after `s`: one number ahead or more, up to half of the circle. -/
def Serial.IsAfter (s t : Serial) : Prop := 1 ≤ distance s t ∧ distance s t ≤ half

theorem Serial.isAfter_nth (start : Serial) {b m : Nat} (hlt : b < m) (hle : m ≤ b + 32768) :
    IsAfter (nth start b) (nth start m) := by
  have hd := toNat_distance_nth start (Nat.le_of_lt hlt)
  rw [IsAfter, UInt16.le_iff_toNat_le, UInt16.le_iff_toNat_le, hd, toNat_half, UInt16.toNat_one]
  omega

/-- Every number has a position from `c` on. -/
theorem Serial.nth_locate (start : Serial) (c : Nat) (s : Serial) : nth start (locate start c s) = s := by
  apply UInt16.toNat_inj.mp
  have := s.toNat_lt
  rw [toNat_nth, locate, distance, UInt16.toNat_sub, toNat_nth]
  omega

namespace Reorder

open Serial (nth)

variable {α : Type} {start : Serial} {item : Nat → Serial × α} {r : Reorder (Serial × α)}
  {released : List (Serial × α)} {b c m : Nat} {waiting : List Nat}

/-- Every item is taken in under its number, and collected for at once. -/
def inTurn (entries : List (Serial × α)) : List (Use (Serial × α)) := entries.flatMap fun e => [.add e.1 e, .collect]

/-! ## What is released -/

/-- Items whose numbers ascend, up to the number at position `b`. -/
structure Ascends (start : Serial) (released : List (Serial × α)) (b : Nat) : Prop where
  chain : released.IsChain fun e f => Serial.IsAfter e.1 f.1
  last : ∃ last, released.getLast? = some last ∧ last.1 = nth start b

theorem Ascends.append_singleton (h : Ascends start released b) (hlt : b < m) (hle : m ≤ b + 32768) {e : Serial × α}
    (he : e.1 = nth start m) : Ascends start (released ++ [e]) m where
  chain := by
    obtain ⟨last, hlast, hb⟩ := h.last
    refine h.chain.append (List.isChain_singleton e) fun f hf g hg => ?_
    obtain rfl := Option.some.inj (hlast.symm.trans hf)
    obtain rfl := Option.some.inj hg
    rw [hb, he]
    exact Serial.isAfter_nth start hlt hle
  last := ⟨e, List.getLast?_concat, he⟩

/-- A gapless range of positions goes on ascending. -/
theorem Ascends.append_range : ∀ {n b m : Nat} {released : List (Serial × α)}, Ascends start released b → b < m →
    m ≤ b + 32768 → (∀ j, m ≤ j → j ≤ m + n → (item j).1 = nth start j) →
    Ascends start (released ++ (List.range' m (n + 1)).map item) (m + n)
  | 0, _, m, _, h, hlt, hle, hnumber => h.append_singleton hlt hle (hnumber m (Nat.le_refl m) (Nat.le_refl m))
  | n + 1, _, m, released, h, hlt, hle, hnumber => by
    have hfirst := h.append_singleton hlt hle (hnumber m (Nat.le_refl m) (Nat.le_add_right m _))
    have hrest := hfirst.append_range (n := n) (m := m + 1) (Nat.lt_succ_self m) (by omega) fun j h1 h2 =>
      hnumber j (by omega) (by omega)
    rw [List.append_assoc, List.singleton_append, Nat.add_assoc, Nat.add_comm 1 n] at hrest
    rw [List.range'_succ, List.map_cons]
    exact hrest

/-! ## What waits -/

/-- What lies at positions where nothing waits does not matter. -/
theorem Spans.congr {item' : Nat → Serial × α} (h : Spans r start item c waiting)
    (hitem : ∀ j ∈ waiting, item' j = item j) : Spans r start item' c waiting where
  cursor := h.cursor
  hasReleased := h.hasReleased
  forced := h.forced
  pending := h.pending.trans (List.map_congr_left fun j hj => by rw [hitem j hj])
  nodup := h.nodup
  ahead := h.ahead
  fits := h.fits

/-- A buffer that has been collected from, when `released` has come out of it so far: the last of it at position `b`,
and the cursor right behind.  What waits does so under its own number. -/
structure Settled (start : Serial) (b : Nat) (state : Reorder (Serial × α) × List (Serial × α)) : Prop where
  waits : ∃ item waiting, Spans state.1 start item (b + 1) waiting ∧ ∀ j ∈ waiting, (item j).1 = nth start j
  ascends : Ascends start state.2 b

variable {state : Reorder (Serial × α) × List (Serial × α)}

/-- An item that comes too late or for a second time changes nothing but the count. -/
theorem Settled.refuse (h : Settled start b state) {r' : Reorder (Serial × α)}
    (hr : r' = { state.1 with dropped := state.1.dropped + 1 }) :
    Settled start b (r'.popReady.2, state.2 ++ r'.popReady.1) := by
  obtain ⟨item, waiting, hspans, hnumber⟩ := h.waits
  -- Where such an item belongs is of no account; position 0 is behind every cursor.
  obtain ⟨rest, harrives, hready, hspans', -⟩ := hspans.arrive_known (.inl (Nat.succ_pos b)) hr
  refine ⟨⟨item, rest, hspans', fun j hj => ?_⟩, ?_⟩
  · obtain ⟨hj | rfl, hle⟩ := (harrives.mem_rest j).1 hj
    · exact hnumber j hj
    · omega
  · rw [hready, List.append_nil]
    exact h.ascends

/-- **One arrival**, whatever its number, leaves the buffer settled. -/
theorem Settled.take (h : Settled start b state) (e : Serial × α) :
    ∃ b', Settled start b' (use (use state (.add e.1 e)) .collect) := by
  obtain ⟨item, waiting, hspans, hnumber⟩ := h.waits
  have hcursor : state.1.cursor.getD e.1 = nth start (b + 1) := by
    rw [hspans.cursor]
    rfl
  have hadd : state.1.add e.1 e =
      if Serial.atOrAhead (nth start (b + 1)) e.1 then state.1.insert (nth start (b + 1)) e.1 e
      else { state.1 with dropped := state.1.dropped + 1 } := by
    unfold add
    simp only [hcursor, hspans.hasReleased, if_true]
  by_cases hahead : Serial.atOrAhead (nth start (b + 1)) e.1 = true
  · rw [if_pos hahead] at hadd
    obtain ⟨d, hd, hnth⟩ : ∃ d, d < 32768 ∧ nth start (b + 1 + d) = e.1 := by
      refine ⟨(Serial.distance (nth start (b + 1)) e.1).toNat, ?_, ?_⟩
      · rwa [Serial.atOrAhead, decide_eq_true_eq, UInt16.lt_iff_toNat_lt, Serial.toNat_half] at hahead
      · exact Serial.nth_locate start (b + 1) e.1
    generalize hi : b + 1 + d = i at hnth
    by_cases hmem : i ∈ waiting
    · refine ⟨b, h.refuse (hadd.trans ?_)⟩
      unfold insert
      rw [hspans.pending, ← hnth, any_waitingAt (by omega) (by omega) hspans.isAhead, decide_eq_true hmem, if_pos rfl,
        ← hspans.pending, ← hspans.cursor]
    · let item' : Nat → Serial × α := fun j => if j = i then e else item j
      have hself : item' i = e := if_pos rfl
      have hother : ∀ j ∈ waiting, item' j = item j := fun j hj => if_neg fun hji : j = i => hmem (hji ▸ hj)
      have hnumber' : ∀ j, j ∈ waiting ∨ j = i → (item' j).1 = nth start j := by
        rintro j (hj | rfl)
        · rw [hother j hj, hnumber j hj]
        · rw [hself, hnth]
      have hinsert : state.1.add e.1 e = state.1.insert (nth start (b + 1)) (nth start i) (item' i) := by
        rw [hadd, hnth, hself]
      have hspans := hspans.congr hother
      obtain ⟨m, n, c', rest, harrives, -, hready, hspans', -⟩ :=
        hspans.arrive_new (by omega) hmem (by omega) hinsert
      have hwaits : ∀ j ∈ rest, (item' j).1 = nth start j := fun j hj => hnumber' j ((harrives.mem_rest j).1 hj).1
      rcases harrives.cursor with ⟨rfl, rfl⟩ | ⟨hn, hm, rfl⟩
      · refine ⟨b, ⟨item', rest, hspans', hwaits⟩, ?_⟩
        show Ascends start (state.2 ++ (state.1.add e.1 e).popReady.1) b
        rw [hready, List.range'_zero, List.map_nil, List.append_nil]
        exact h.ascends
      · obtain ⟨n, rfl⟩ := Nat.exists_eq_add_one.2 hn
        have hm' := hspans.released_lt harrives (by omega) (Nat.le_refl m) (by omega)
        have hnumbers : ∀ j, m ≤ j → j ≤ m + n → (item' j).1 = nth start j := fun j h1 h2 =>
          hnumber' j (harrives.released j h1 (by omega))
        have hascends := h.ascends.append_range hm (by omega) hnumbers
        rw [← hready] at hascends
        exact ⟨m + n, ⟨item', rest, hspans', hwaits⟩, hascends⟩
  · rw [if_neg hahead] at hadd
    exact ⟨b, h.refuse hadd⟩

/-- The first item is released at once. -/
theorem settled_first (capacity : Nat) (e : Serial × α) :
    Settled e.1 0 (use (use (ofCapacity capacity, []) (.add e.1 e)) .collect) := by
  obtain ⟨hready, hspans, -⟩ := spans_first e.1 (fun _ => e) capacity 0
  rw [Serial.nth_zero] at hready hspans
  refine ⟨⟨fun _ => e, [], hspans, fun j hj => absurd hj List.not_mem_nil⟩, ?_⟩
  show Ascends e.1 ([] ++ ((ofCapacity capacity).add e.1 e).popReady.1) 0
  rw [hready]
  exact ⟨List.isChain_singleton e, e, rfl, (Serial.nth_zero e.1).symm⟩

theorem Settled.run : ∀ (entries : List (Serial × α)) {b : Nat} {state : Reorder (Serial × α) × List (Serial × α)},
    Settled start b state → ∃ b', Settled start b' ((inTurn entries).foldl use state)
  | [], b, _, h => ⟨b, h⟩
  | e :: rest, _, _, h => by
    obtain ⟨b', h'⟩ := h.take e
    exact Settled.run rest h'

/-- **What a reorder buffer releases ascends.**  Whatever the numbers that come and in whatever order, doubles and late
ones among them, each item released comes after the one before by half of the circle at most.  The cursor is right
behind the last item released, nothing waits at it, and all that waits does so under its own number less than half of
the circle ahead. -/
theorem replay_inTurn_ascends (capacity : Nat) (first : Serial × α) (rest : List (Serial × α)) :
    let (r, released) := replay capacity (inTurn (first :: rest))
    released.IsChain (fun e f => Serial.IsAfter e.1 f.1) ∧
      ∃ last, released.getLast? = some last ∧ r.cursor = some (last.1 + 1) ∧
        ∀ e ∈ r.pending, e.2.1 = e.1 ∧ e.1 ≠ last.1 + 1 ∧ 1 ≤ Serial.distance (last.1 + 1) e.1 ∧
          Serial.distance (last.1 + 1) e.1 < Serial.half := by
  obtain ⟨b, hsettled⟩ := (settled_first capacity first).run rest
  obtain ⟨last, hlast, hb⟩ := hsettled.ascends.last
  obtain ⟨item, waiting, hspans, hnumber⟩ := hsettled.waits
  have hcursor : nth first.1 (b + 1) = last.1 + 1 := by rw [hb, Serial.nth_add_one]
  refine ⟨hsettled.ascends.chain, last, hlast, hcursor ▸ hspans.cursor, fun e he => ?_⟩
  obtain ⟨j, hj, rfl⟩ := List.mem_map.1 (hspans.pending ▸ he)
  obtain ⟨hlt, hle⟩ := hspans.ahead j hj
  have hd := Serial.toNat_distance_nth first.1 (Nat.le_of_lt hlt)
  rw [← hcursor, Ne, Serial.nth_inj first.1 (by omega) (by omega), UInt16.le_iff_toNat_le, UInt16.lt_iff_toNat_lt, hd,
    Serial.toNat_half, UInt16.toNat_one]
  exact ⟨hnumber j hj, by omega, by omega, by omega⟩

/-- Two may wait.  Number 65534 is released at once, and 0 waits; the double of it is thrown away.  Number 3 waits too,
and when 1 comes, 0 is forced out and 1 follows it.  Number 65535 comes too late, and 3 waits on. -/
example :
    ((replay 2 (inTurn [(65534, 'a'), (0, 'c'), (0, 'C'), (3, 'f'), (1, 'd'), (65535, 'b')])).2 =
      [(65534, 'a'), (0, 'c'), (1, 'd')]) := by
  decide

end Reorder
end VideoTransport
