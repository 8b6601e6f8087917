import VideoTransport.Proofs.Stranding
/-!
# Swapping — two neighbours that change places

A stream arrives in order except that two neighbours are swapped.  Within the stream that does no harm, since one item
may always wait (`replay_swapped_within`).  At its start it depends on the caller.  A buffer that is collected from
after every arrival has released the second item before the first one comes, which is then too late, and the stream is
released without its first item; had the caller left out that one collection, all of the stream would have come out in
order (`replay_swapped_start`).
-/
namespace VideoTransport
namespace Reorder

open Serial (nth)

variable {α : Type} {start : Serial} {item : Nat → α} {r : Reorder α} {c : Nat} {waiting : List Nat}

/-! ## One turn -/

/-- What an arrival releases goes on as far as it can. -/
theorem Spans.stops {i m n c' : Nat} {rest : List Nat} (h : Spans r start item c' rest)
    (ha : Arrives c i waiting m n c' rest) : c' ∉ waiting ∧ c' ≠ i := by
  rw [← not_or]
  exact fun hmem => Nat.lt_irrefl c' (h.ahead c' ((ha.mem_rest c').2 ⟨hmem, Nat.le_refl c'⟩)).1

/-- Nothing is released from the cursor on if nothing waits and the item that arrives is another one. -/
theorem Arrives.eq_zero {i n c' : Nat} {rest : List Nat} (ha : Arrives c i [] c n c' rest) (hne : i ≠ c) : n = 0 := by
  by_contra hn
  rcases ha.released c (Nat.le_refl c) (by omega) with hmem | heq
  · exact List.not_mem_nil hmem
  · exact hne heq.symm

/-- Nothing is left waiting if the cursor has passed all there was. -/
theorem Arrives.rest_eq_nil {i m n c' : Nat} {rest : List Nat} (ha : Arrives c i waiting m n c' rest)
    (hpassed : ∀ j, j ∈ waiting ∨ j = i → j < c') : rest = [] := by
  refine List.eq_nil_iff_forall_not_mem.2 fun j hj => ?_
  obtain ⟨hthere, hahead⟩ := (ha.mem_rest j).1 hj
  exact Nat.not_lt.2 hahead (hpassed j hthere)

/-- **An item whose turn it is** comes out at once, and the cursor goes on to the next one. -/
theorem add_turn {s : Serial} (hc : r.cursor.getD s = s) (hp : r.pending = []) (hf : r.forced = [])
    (hcap : 0 < r.capacity) (a : α) :
    (r.add s a).popReady = ([a], { r with cursor := some (s + 1), hasReleased := true }) := by
  have hself : Serial.atOrAhead s s = true := by rw [Serial.atOrAhead_iff, Serial.toNat_distance_self]; decide
  have hroom : r.size < r.capacity := by rwa [size, hp, List.length_nil]
  have hadd : r.add s a = { r with cursor := some s, pending := [(s, a)] } := by
    unfold add
    simp only [hc, hself, if_true]
    rw [insert_of_new (fun e he => by rw [hp] at he; cases he), hp]
    exact if_pos hroom
  rw [hadd]
  unfold popReady
  simp [takeRun, takeOut, hf, hp]

theorem Spans.next (h : Spans r start item c []) (hcap : 0 < r.capacity) :
    (r.add (nth start c) (item c)).popReady.1 = [item c] ∧
      Spans (r.add (nth start c) (item c)).popReady.2 start item (c + 1) [] ∧
      (r.add (nth start c) (item c)).popReady.2.capacity = r.capacity := by
  have hcursor : r.cursor.getD (nth start c) = nth start c := by
    rw [h.cursor]
    rfl
  rw [add_turn hcursor h.pending h.forced hcap]
  exact ⟨rfl, ⟨congrArg some (Serial.nth_add_one start c), rfl, h.forced, h.pending, h.nodup,
    fun _ hj => absurd hj List.not_mem_nil, h.fits⟩, rfl⟩

/-- An item that comes one too early waits. -/
theorem Spans.early (h : Spans r start item c []) (hcap : 0 < r.capacity) :
    (r.add (nth start (c + 1)) (item (c + 1))).popReady.1 = [] ∧
      (∃ waiting, (∀ j, j ∈ waiting ↔ j = c + 1) ∧
        Spans (r.add (nth start (c + 1)) (item (c + 1))).popReady.2 start item c waiting) ∧
      (r.add (nth start (c + 1)) (item (c + 1))).popReady.2.capacity = r.capacity := by
  obtain ⟨m, n, c', rest, ha, hm, hready, hspans, hcapacity⟩ := h.arrive (i := c + 1) (by omega) (by omega)
  obtain rfl : m = c := hm.resolve_right fun hfull => absurd hcap (Nat.not_lt.2 hfull.2.2)
  obtain rfl := ha.cursor_eq
  obtain rfl := ha.eq_zero (by omega)
  refine ⟨hready, ⟨rest, fun j => ?_, hspans⟩, hcapacity⟩
  rw [ha.mem_rest]
  simp only [List.not_mem_nil, false_or]
  omega

/-- An item that is behind the cursor comes too late. -/
theorem Spans.late {i : Nat} (h : Spans r start item c []) (hi : i < c) (hc : c < i + 32768) :
    (r.add (nth start i) (item i)).popReady.1 = [] ∧
      Spans (r.add (nth start i) (item i)).popReady.2 start item c [] ∧
      (r.add (nth start i) (item i)).popReady.2.capacity = r.capacity := by
  obtain ⟨m, n, c', rest, ha, hm, hready, hspans, hcapacity⟩ := h.arrive (i := i) (by omega) hc
  obtain rfl : m = c := hm.resolve_right fun hfull => Nat.lt_asymm hi hfull.1
  obtain rfl := ha.cursor_eq
  obtain rfl := ha.eq_zero (by omega)
  obtain rfl := ha.rest_eq_nil fun j hj => hj.elim (fun hmem => absurd hmem List.not_mem_nil) fun heq => heq ▸ hi
  exact ⟨hready, hspans, hcapacity⟩

/-- The item that one waits for comes out with it. -/
theorem Spans.fill (h : Spans r start item c waiting) (hw : ∀ j, j ∈ waiting ↔ j = c + 1) :
    (r.add (nth start c) (item c)).popReady.1 = [item c, item (c + 1)] ∧
      Spans (r.add (nth start c) (item c)).popReady.2 start item (c + 2) [] ∧
      (r.add (nth start c) (item c)).popReady.2.capacity = r.capacity := by
  obtain ⟨m, n, c', rest, ha, hm, hready, hspans, hcapacity⟩ := h.arrive (i := c) (by omega) (by omega)
  obtain rfl : m = c := hm.resolve_right fun hfull => Nat.lt_irrefl c hfull.1
  obtain rfl := ha.cursor_eq
  have hstops := hspans.stops ha
  rw [hw] at hstops
  obtain rfl : n = 2 := by
    by_contra hn
    rcases ha.released (m + 2) (by omega) (by omega) with hmem | heq
    · have := (hw (m + 2)).1 hmem
      omega
    · omega
  obtain rfl := ha.rest_eq_nil fun j hj => by
    rw [hw] at hj
    omega
  exact ⟨hready, hspans, hcapacity⟩

/-- The second item has come first and waits when the first one moves the cursor back; both come out. -/
theorem popReady_rewound (hcursor : r.cursor = some (nth start 1)) (hreleased : r.hasReleased = false)
    (hforced : r.forced = []) (hpending : r.pending = waitingAt start item [1]) (hcap : 0 < r.capacity) :
    (r.add (nth start 0) (item 0)).popReady.1 = [item 0, item 1] ∧
      Spans (r.add (nth start 0) (item 0)).popReady.2 start item 2 [] ∧
      (r.add (nth start 0) (item 0)).popReady.2.capacity = r.capacity := by
  have hnew : ∀ e ∈ r.pending, e.1 ≠ nth start 0 := by
    rw [hpending]
    intro e he
    obtain rfl := List.mem_singleton.1 he
    exact fun hs => Nat.one_ne_zero ((Serial.nth_inj start (by omega) (by omega)).1 hs)
  have hahead : IsAhead 0 [1, 0] := fun j hj => by simp at hj; omega
  have hsize : r.size = 1 := by rw [size, hpending]; rfl
  let grown : Reorder α := { r with cursor := some (nth start 0), pending := r.pending ++ [(nth start 0, item 0)] }
  have hgrown : grown.pending = waitingAt start item [1, 0] := by
    show r.pending ++ [(nth start 0, item 0)] = _
    rw [hpending]
    rfl
  have hmoved : grown.cursor = some (nth start 0) := rfl
  rw [add_of_cursor hcursor, Serial.behind_nth start Nat.one_pos (by omega), hreleased, if_neg Bool.false_ne_true,
    if_neg Bool.false_ne_true, insert_of_new hnew]
  show (if r.size < r.capacity then grown else grown.forceNearest (nth start 0)).popReady.1 = _ ∧
    Spans (if r.size < r.capacity then grown else grown.forceNearest (nth start 0)).popReady.2 start item 2 [] ∧
    (if r.size < r.capacity then grown else grown.forceNearest (nth start 0)).popReady.2.capacity = _
  split
  · rename_i hroom
    rw [hsize] at hroom
    obtain ⟨n, rest, hrun, hready, hspans, hcapacity⟩ := popReady_spans hmoved hgrown hahead (by simp) hroom
      (.inr (by simp))
    have hstops := hrun.stops
    obtain rfl : n = 2 := by
      by_contra hn
      have hlast := hrun.run 2 (by omega)
      simp at hstops hlast
      omega
    obtain rfl : rest = [] := List.eq_nil_iff_forall_not_mem.2 fun j hj => by
      have := (hrun.mem_rest j).1 hj
      simp at this
      omega
    refine ⟨?_, hspans, hcapacity⟩
    rw [hready, show grown.forced = [] from hforced]
    rfl
  · -- There is room for one only: the first item is forced out, and the second follows.
    obtain ⟨m, n, rest, ⟨-, hle⟩, hrun, hrest, hready, hspans, hcapacity⟩ := popReady_forceNearest hgrown (by simp)
      hahead (by simp) hforced (Nat.succ_le_succ hcap)
    obtain rfl : m = 0 := Nat.le_zero.1 (hle 0 (by simp))
    obtain rfl : n = 1 := by
      by_contra hn
      have hlast := hrun 2 (by omega)
      have hstops := fun h1 : 0 + 1 + n ≤ 1 => (hspans.ahead 1 ((hrest 1).2 ⟨by simp, h1⟩)).1
      simp at hlast
      omega
    obtain rfl : rest = [] := List.eq_nil_iff_forall_not_mem.2 fun j hj => by
      have := (hrest j).1 hj
      simp at this
      omega
    exact ⟨hready, hspans, hcapacity⟩

/-! ## Streams -/

/-- The item at position `i` of a stream, with its number. -/
def entryAt (start : Serial) (content : Nat → α) (i : Nat) : Serial × α := (nth start i, content i)

variable {content : Nat → α} {state : Reorder (Serial × α) × List (Serial × α)}

/-- A buffer that has been collected from, in which nothing waits and whose cursor is at position `c` of a stream. -/
structure Awaits (start : Serial) (content : Nat → α) (c : Nat) (r : Reorder (Serial × α)) : Prop where
  spans : Spans r start (entryAt start content) c []
  capacity : 0 < r.capacity

/-- **A stretch of a stream in order** comes out in order. -/
theorem Awaits.run : ∀ (n : Nat) {c : Nat} {state : Reorder (Serial × α) × List (Serial × α)},
    Awaits start content c state.1 →
      ((inTurn ((List.range' c n).map (entryAt start content))).foldl use state).2 =
          state.2 ++ (List.range' c n).map (entryAt start content) ∧
        Awaits start content (c + n) ((inTurn ((List.range' c n).map (entryAt start content))).foldl use state).1
  | 0, _, state, h => ⟨(List.append_nil state.2).symm, h⟩
  | n + 1, c, state, h => by
    obtain ⟨hready, hspans, hcapacity⟩ := h.spans.next h.capacity
    let next := use (use state (.add (nth start c) (entryAt start content c))) .collect
    have hnext : Awaits start content (c + 1) next.1 := ⟨hspans, hcapacity ▸ h.capacity⟩
    obtain ⟨hall, hawaits⟩ := Awaits.run n hnext
    have hrange : List.range' c (n + 1) = c :: List.range' (c + 1) n := List.range'_succ
    have hfirst : next.2 = state.2 ++ [entryAt start content c] := congrArg (state.2 ++ ·) hready
    rw [hrange, List.map_cons]
    refine ⟨hall.trans ?_, ?_⟩
    · rw [hfirst, List.append_assoc, List.singleton_append]
    · rwa [Nat.add_assoc, Nat.add_comm 1 n] at hawaits

theorem Awaits.replay_run {capacity : Nat} {uses : List (Use (Serial × α))}
    (h : Awaits start content c (replay capacity uses).1) (n : Nat) :
    let stretch := (List.range' c n).map (entryAt start content)
    (replay capacity (uses ++ inTurn stretch)).2 = (replay capacity uses).2 ++ stretch ∧
      Awaits start content (c + n) (replay capacity (uses ++ inTurn stretch)).1 := by
  intro stretch
  rw [replay_append]
  exact h.run n

/-- **Two neighbours that arrive in each other's place** come out in order. -/
theorem Awaits.swap (h : Awaits start content c state.1) :
    ((inTurn [entryAt start content (c + 1), entryAt start content c]).foldl use state).2 =
        state.2 ++ [entryAt start content c, entryAt start content (c + 1)] ∧
      Awaits start content (c + 2)
        ((inTurn [entryAt start content (c + 1), entryAt start content c]).foldl use state).1 := by
  obtain ⟨hready, ⟨waiting, hw, hspans⟩, hcapacity⟩ := h.spans.early h.capacity
  obtain ⟨hready', hspans', hcapacity'⟩ := hspans.fill hw
  have hwaits : (use (use state (.add (nth start (c + 1)) (entryAt start content (c + 1)))) .collect).2 = state.2 :=
    (congrArg (state.2 ++ ·) hready).trans (List.append_nil state.2)
  refine ⟨?_, hspans', hcapacity' ▸ hcapacity ▸ h.capacity⟩
  rw [← hready', ← hwaits]
  rfl

/-- The second item comes first and is released; the first one is too late. -/
theorem awaits_swapped (capacity : Nat) (start : Serial) (content : Nat → α) :
    (replay capacity (inTurn [entryAt start content 1, entryAt start content 0])).2 = [entryAt start content 1] ∧
      Awaits start content 2 (replay capacity (inTurn [entryAt start content 1, entryAt start content 0])).1 := by
  obtain ⟨hready, hspans, hcapacity⟩ := spans_first start (entryAt start content) capacity 1
  obtain ⟨hready', hspans', hcapacity'⟩ := hspans.late (i := 0) Nat.two_pos (by omega)
  refine ⟨?_, hspans', ?_⟩
  · exact (congrArg₂ (· ++ ·) hready hready').trans (List.append_nil _)
  · exact hcapacity'.trans hcapacity ▸ Nat.le_max_right capacity 1

/-- The second item comes first and is not collected for, so the first one moves the cursor back and both come out. -/
theorem awaits_rewound (capacity : Nat) (start : Serial) (content : Nat → α) :
    let uses := .add (nth start 1) (entryAt start content 1) :: inTurn [entryAt start content 0]
    (replay capacity uses).2 = [entryAt start content 0, entryAt start content 1] ∧
      Awaits start content 2 (replay capacity uses).1 := by
  have hpos : 1 ≤ max capacity 1 := Nat.le_max_right capacity 1
  let first : Reorder (Serial × α) := (ofCapacity capacity).add (nth start 1) (entryAt start content 1)
  have hfirst : first = _ := add_ofCapacity start (entryAt start content) capacity 1
  have hcursor : first.cursor = some (nth start 1) := by rw [hfirst]
  have hpending : first.pending = waitingAt start (entryAt start content) [1] := by rw [hfirst]
  have hcapacity : first.capacity = max capacity 1 := by rw [hfirst]
  obtain ⟨hready, hspans, hkept⟩ := popReady_rewound hcursor (by rw [hfirst]) (by rw [hfirst]) hpending
    (hcapacity ▸ hpos)
  exact ⟨hready, hspans, hkept.trans hcapacity ▸ hpos⟩

/-- When nothing waits, what has not come out has been thrown away. -/
theorem Awaits.dropped {capacity : Nat} {uses : List (Use (Serial × α))}
    (h : Awaits start content c (replay capacity uses).1) :
    (replay capacity uses).2.length + (replay capacity uses).1.dropped = (arrivals uses).length := by
  obtain ⟨lost, out, held, ha⟩ := (balanced_replay capacity uses).accounts
  have hlen := ha.all.length_eq
  have hheld := congrArg List.length (ha.forced.trans h.spans.forced)
  rw [h.spans.pending, waitingAt, List.map_nil, List.append_nil, List.length_append, List.length_append,
    ha.dropped] at hlen
  rw [List.length_map, List.length_nil] at hheld
  rw [← ha.released, List.length_map]
  omega

theorem length_arrivals_inTurn (entries : List (Serial × α)) : (arrivals (inTurn entries)).length = entries.length := by
  induction entries with
  | nil => rfl
  | cons e rest ih => exact congrArg (· + 1) ih

/-- When nothing waits, the items that have not come out have been thrown away, and none is left. -/
theorem Awaits.books {capacity lost : Nat} {uses : List (Use (Serial × α))} {released : List (Serial × α)}
    (h : Awaits start content c (replay capacity uses).1) (hreleased : (replay capacity uses).2 = released)
    (hlost : (arrivals uses).length = released.length + lost) :
    (replay capacity uses).2 = released ∧ (replay capacity uses).1.dropped = lost ∧
      (replay capacity uses).1.size = 0 := by
  have hdropped := h.dropped
  rw [hreleased, hlost] at hdropped
  refine ⟨hreleased, Nat.add_left_cancel hdropped, ?_⟩
  rw [size, h.spans.pending]
  rfl

/-! ## Swapped streams -/

/-- **A stream whose first two items are swapped** loses its first item if the buffer is collected from after every
arrival: the second one has been released when the first one comes, and nothing is moved back any more.  All that
follows comes out in order.  If the one collection between the two is left out, all of the stream comes out in order,
whatever the capacity. -/
theorem replay_swapped_start (capacity : Nat) (start : Serial) (content : Nat → α) (more : Nat) :
    let entry := entryAt start content
    let rest := (List.range' 2 more).map entry
    let prompt := replay capacity (inTurn (entry 1 :: entry 0 :: rest))
    let delayed := replay capacity (.add (entry 1).1 (entry 1) :: inTurn (entry 0 :: rest))
    (prompt.2 = (List.range' 1 (more + 1)).map entry ∧ prompt.1.dropped = 1 ∧ prompt.1.size = 0) ∧
      delayed.2 = (List.range (more + 2)).map entry ∧ delayed.1.dropped = 0 ∧ delayed.1.size = 0 := by
  intro entry rest prompt delayed
  have hrest : rest.length = more := by rw [List.length_map, List.length_range']
  have hprompt : (List.range' 1 (more + 1)).map entry = entry 1 :: rest := by
    rw [List.range'_succ, List.map_cons]
  have hdelayed : (List.range (more + 2)).map entry = entry 0 :: entry 1 :: rest := by
    rw [List.range_eq_range', List.range'_succ, List.range'_succ, List.map_cons, List.map_cons]
  rw [hprompt, hdelayed]
  constructor
  · obtain ⟨hready, hawaits⟩ := awaits_swapped capacity start content
    obtain ⟨hall, hend⟩ := hawaits.replay_run more
    rw [show prompt = replay capacity (inTurn [entry 1, entry 0] ++ inTurn rest) from rfl]
    refine hend.books (hall.trans (congrArg (· ++ rest) hready)) ?_
    show (arrivals (inTurn (entry 1 :: entry 0 :: rest))).length = _
    rw [length_arrivals_inTurn, List.length_cons, List.length_cons, List.length_cons]
  · obtain ⟨hready, hawaits⟩ := awaits_rewound capacity start content
    obtain ⟨hall, hend⟩ := hawaits.replay_run more
    rw [show delayed = replay capacity (.add (entry 1).1 (entry 1) :: inTurn [entry 0] ++ inTurn rest) from rfl]
    refine hend.books (hall.trans (congrArg (· ++ rest) hready)) ?_
    show (arrivals (inTurn (entry 0 :: rest))).length + 1 = _
    rw [length_arrivals_inTurn, List.length_cons, List.length_cons, List.length_cons]

/-- Numbers 1 and 0 come in this order; 1 is released before 0 comes. -/
theorem swapped_start_loses : ¬∀ (capacity : Nat) (start : Serial) (content : Nat → Char) (more : Nat), 1 ≤ capacity →
    (replay capacity (inTurn ((1 :: 0 :: List.range' 2 more).map (entryAt start content)))).2 =
      (List.range (more + 2)).map (entryAt start content) :=
  fun h => absurd (h 64 0 (fun _ => 'a') 0 (by decide)) (by decide)

/-- **A stream in order** comes out in order. -/
theorem awaits_in_order (capacity : Nat) (start : Serial) (content : Nat → α) (n : Nat) :
    (replay capacity (inTurn ((List.range (n + 1)).map (entryAt start content)))).2 =
        (List.range (n + 1)).map (entryAt start content) ∧
      Awaits start content (n + 1)
        (replay capacity (inTurn ((List.range (n + 1)).map (entryAt start content)))).1 := by
  obtain ⟨hready, hspans, hcapacity⟩ := spans_first start (entryAt start content) capacity 0
  let first := use (use (ofCapacity capacity, []) (.add (nth start 0) (entryAt start content 0))) .collect
  have hfirst : Awaits start content 1 first.1 := ⟨hspans, hcapacity ▸ Nat.le_max_right capacity 1⟩
  obtain ⟨hall, hawaits⟩ := Awaits.run n hfirst
  have hrange : List.range (n + 1) = 0 :: List.range' 1 n := by rw [List.range_eq_range', List.range'_succ]
  rw [hrange, List.map_cons, Nat.add_comm n 1]
  exact ⟨hall.trans (congrArg (· ++ (List.range' 1 n).map (entryAt start content)) hready), hawaits⟩

/-- **Within a stream a swap does no harm**: all of the stream comes out in order, whatever the capacity. -/
theorem replay_swapped_within (capacity : Nat) (start : Serial) (content : Nat → α) (before more : Nat) :
    let entry := entryAt start content
    let swapped := List.range (before + 1) ++ [before + 2, before + 1] ++ List.range' (before + 3) more
    let state := replay capacity (inTurn (swapped.map entry))
    state.2 = (List.range (before + 3 + more)).map entry ∧ state.1.dropped = 0 ∧ state.1.size = 0 := by
  intro entry swapped state
  obtain ⟨hready, hawaits⟩ := awaits_in_order capacity start content before
  obtain ⟨hswapped, hawaits⟩ := hawaits.swap
  rw [← replay_append] at hswapped hawaits
  obtain ⟨hall, hend⟩ := hawaits.replay_run more
  have huses : inTurn ((List.range (before + 1)).map entry) ++ inTurn [entry (before + 2), entry (before + 1)] ++
      inTurn ((List.range' (before + 3) more).map entry) = inTurn (swapped.map entry) := by
    simp only [swapped, inTurn, List.map_append, List.flatMap_append, List.map_cons, List.map_nil]
  have hreleased : (List.range (before + 3 + more)).map entry =
      (List.range (before + 1)).map entry ++ [entry (before + 1), entry (before + 2)] ++
        (List.range' (before + 3) more).map entry := by
    have hthree : List.range (before + 3) = List.range (before + 1) ++ [before + 1, before + 2] := by
      rw [List.range_succ, List.range_succ, List.append_assoc]
      rfl
    have hrange : List.range (before + 3 + more) = List.range (before + 3) ++ List.range' (before + 3) more := by
      have happend := @List.range'_append_1 0 (before + 3) more
      rwa [Nat.zero_add, ← List.range_eq_range', ← List.range_eq_range', eq_comm] at happend
    rw [hrange, hthree, List.map_append, List.map_append, List.map_cons, List.map_cons, List.map_nil]
  have hcount : (arrivals (inTurn (swapped.map entry))).length =
      ((List.range (before + 3 + more)).map entry).length + 0 := by
    rw [length_arrivals_inTurn]
    simp [swapped]
    omega
  rw [hswapped, hready] at hall
  rw [huses] at hall hend
  exact hend.books (hall.trans hreleased.symm) hcount

end Reorder
end VideoTransport
