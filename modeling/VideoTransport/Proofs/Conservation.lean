import VideoTransport.Inbound.Reorder
/-!
# Conservation — where the items of a reorder buffer go

A buffer takes items in and is collected from, in any order.  At every moment each item taken in is in exactly one
place: it has been released, has been forced out and waits to be collected, waits under its number, or has been thrown
away and counted (`Accounts`).  No place but the first grows beyond the capacity, and collecting always comes to an end
(`replay_conserves`).
-/
namespace VideoTransport
namespace Reorder

variable {α : Type}

/-! ## Taking out -/

theorem takeOut_perm {s : Serial} {a : α} : ∀ {items rest : List (Serial × α)}, takeOut s items = some (a, rest) →
    items.Perm ((s, a) :: rest)
  | (t, b) :: items, rest, h => by
    unfold takeOut at h
    split at h
    · rename_i ht
      cases h
      rw [ht]
    · obtain ⟨⟨c, left⟩, hc, he⟩ := Option.map_eq_some_iff.1 h
      cases he
      exact ((takeOut_perm hc).cons (t, b)).trans (List.Perm.swap (s, a) (t, b) left)

theorem exists_takeOut {s : Serial} : ∀ {items : List (Serial × α)}, (∃ e ∈ items, e.1 = s) →
    ∃ a rest, takeOut s items = some (a, rest)
  | [], h => absurd h (by simp)
  | (t, b) :: items, h => by
    by_cases ht : t = s
    · exact ⟨b, items, if_pos ht⟩
    · have hmem : ∃ e ∈ items, e.1 = s := by
        obtain ⟨e, he, hs⟩ := h
        rcases List.mem_cons.1 he with rfl | he
        · exact absurd hs ht
        · exact ⟨e, he, hs⟩
      obtain ⟨a, rest, ha⟩ := exists_takeOut hmem
      exact ⟨a, (t, b) :: rest, by rw [takeOut, if_neg ht, ha]; rfl⟩

theorem nearest_mem (cursor : Serial) : ∀ (items : List (Serial × α)) (best : Serial),
    nearest cursor best items = best ∨ ∃ e ∈ items, e.1 = nearest cursor best items
  | [], _ => .inl rfl
  | e :: items, best => by
    rw [nearest, List.foldl_cons, ← nearest]
    split
    · rcases nearest_mem cursor items e.1 with h | ⟨f, hf, h⟩
      · exact .inr ⟨e, List.mem_cons_self, h.symm⟩
      · exact .inr ⟨f, List.mem_cons_of_mem e hf, h⟩
    · rcases nearest_mem cursor items best with h | ⟨f, hf, h⟩
      · exact .inl h
      · exact .inr ⟨f, List.mem_cons_of_mem e hf, h⟩

/-- **What forcing out does**: one item that waits joins those forced out, the oldest of which gives way if they are as
many as may be. -/
theorem forceNearest_spec {r : Reorder α} (cursor : Serial) (h : r.pending ≠ []) : ∃ s item,
    r.pending.Perm ((s, item) :: (r.forceNearest cursor).pending) ∧
      (r.forceNearest cursor).forced = (if r.capacity ≤ r.forced.length then r.forced.drop 1 else r.forced) ++ [item] ∧
      (r.forceNearest cursor).dropped = (if r.capacity ≤ r.forced.length then r.dropped + 1 else r.dropped) ∧
      (r.forceNearest cursor).capacity = r.capacity := by
  obtain ⟨⟨t, b⟩, rest, hp⟩ := List.exists_cons_of_ne_nil h
  have hmem : ∃ e ∈ r.pending, e.1 = nearest cursor t rest := by
    rw [hp]
    rcases nearest_mem cursor rest t with hn | ⟨e, he, hn⟩
    · exact ⟨(t, b), List.mem_cons_self, hn.symm⟩
    · exact ⟨e, List.mem_cons_of_mem _ he, hn⟩
  obtain ⟨item, left, htake⟩ := exists_takeOut hmem
  refine ⟨nearest cursor t rest, item, ?_⟩
  have hperm := takeOut_perm htake
  unfold forceNearest
  rw [hp] at htake hperm ⊢
  simp only [htake]
  exact ⟨hperm, trivial, trivial, trivial⟩

/-! ## Draining -/

/-- A run of items is drained from those that wait, from `cursor` on, until the number waited for is missing. -/
inductive Drains : Serial → List (Serial × α) → List α → List (Serial × α) → Serial → Prop
  | stop {cursor : Serial} {pending : List (Serial × α)} (h : takeOut cursor pending = none) :
    Drains cursor pending [] pending cursor
  | next {cursor cursor' : Serial} {pending rest left : List (Serial × α)} {item : α} {run : List α}
    (h : takeOut cursor pending = some (item, rest)) (more : Drains (cursor + 1) rest run left cursor') :
    Drains cursor pending (item :: run) left cursor'

/-- **Draining ends** before it has taken more steps than items wait. -/
theorem drains_takeRun : ∀ {fuel : Nat} {cursor : Serial} {pending : List (Serial × α)}, pending.length ≤ fuel →
    Drains cursor pending (takeRun fuel cursor pending).1 (takeRun fuel cursor pending).2.1
      (takeRun fuel cursor pending).2.2
  | 0, cursor, pending, hl => by
    obtain rfl := List.length_eq_zero_iff.1 (Nat.le_zero.1 hl)
    exact .stop rfl
  | fuel + 1, cursor, pending, hl => by
    rw [takeRun]
    cases htake : takeOut cursor pending with
    | none => exact .stop htake
    | some taken =>
      have hlen := (takeOut_perm htake).length_eq
      rw [List.length_cons] at hlen
      exact .next htake (drains_takeRun (by omega))

/-- What is drained and what waits on are what waited. -/
theorem Drains.perm {cursor cursor' : Serial} {pending left : List (Serial × α)} {run : List α}
    (h : Drains cursor pending run left cursor') :
    ∃ taken : List (Serial × α), taken.map (·.2) = run ∧ pending.Perm (taken ++ left) := by
  induction h with
  | stop h => exact ⟨[], rfl, List.Perm.refl _⟩
  | next h more ih =>
    obtain ⟨taken, hrun, hperm⟩ := ih
    exact ⟨(_, _) :: taken, congrArg _ hrun, (takeOut_perm h).trans (hperm.cons _)⟩

/-- **What collecting does**: it releases what was forced out, then what is drained. -/
theorem popReady_spec (r : Reorder α) : r.popReady.2.forced = [] ∧ r.popReady.2.dropped = r.dropped ∧
    r.popReady.2.capacity = r.capacity ∧
    ∃ run, r.popReady.1 = r.forced ++ run ∧
      ((∃ cursor cursor', r.cursor = some cursor ∧ r.popReady.2.cursor = some cursor' ∧
        Drains cursor r.pending run r.popReady.2.pending cursor') ∨
      r.cursor = none ∧ run = [] ∧ r.popReady.2.pending = r.pending) := by
  unfold popReady
  cases hc : r.cursor with
  | none => exact ⟨rfl, rfl, rfl, [], (List.append_nil _).symm, .inr ⟨rfl, rfl, rfl⟩⟩
  | some cursor =>
    exact ⟨rfl, rfl, rfl, _, rfl, .inl ⟨cursor, _, rfl, rfl, drains_takeRun (Nat.le_refl _)⟩⟩

/-- What is released besides the items forced out are items that waited; the others wait on. -/
theorem popReady_taken (r : Reorder α) : ∃ taken : List (Serial × α),
    r.popReady.1 = r.forced ++ taken.map (·.2) ∧ r.pending.Perm (taken ++ r.popReady.2.pending) := by
  obtain ⟨-, -, -, run, hrun, hdrain⟩ := r.popReady_spec
  rcases hdrain with ⟨_, _, -, -, hdrain⟩ | ⟨-, rfl, hpending⟩
  · obtain ⟨taken, rfl, hperm⟩ := hdrain.perm
    exact ⟨taken, hrun, hperm⟩
  · exact ⟨[], hrun, hpending ▸ List.Perm.refl _⟩

theorem length_popReady_le (r : Reorder α) : r.popReady.1.length ≤ r.pending.length + r.forced.length := by
  obtain ⟨taken, hready, hperm⟩ := r.popReady_taken
  have hlen := hperm.length_eq
  rw [List.length_append] at hlen
  rw [hready, List.length_append, List.length_map]
  omega

/-! ## Taking in -/

/-- Forcing an item out brings no further one. -/
theorem length_forceNearest_le {r : Reorder α} (cursor : Serial) (h : r.pending ≠ []) :
    (r.forceNearest cursor).pending.length + (r.forceNearest cursor).forced.length ≤
      r.pending.length + r.forced.length := by
  obtain ⟨_, _, hperm, hforced, -, -⟩ := forceNearest_spec cursor h
  have hlen := hperm.length_eq
  rw [List.length_cons] at hlen
  rw [hforced, List.length_append, List.length_singleton]
  split
  · rw [List.length_drop]
    omega
  · omega

/-- An item taken in adds at most itself to those that wait or have been forced out. -/
theorem length_insert_le (r : Reorder α) (cursor s : Serial) (item : α) :
    (r.insert cursor s item).pending.length + (r.insert cursor s item).forced.length ≤
      r.pending.length + r.forced.length + 1 := by
  unfold insert
  split
  · exact Nat.le_succ _
  · have hentered : (r.pending ++ [(s, item)]).length + r.forced.length ≤ r.pending.length + r.forced.length + 1 := by
      rw [List.length_append, List.length_singleton]
      omega
    dsimp only
    split
    · refine Nat.le_trans (length_forceNearest_le cursor ?_) hentered
      exact List.append_ne_nil_of_right_ne_nil _ (List.cons_ne_nil _ _)
    · exact hentered

theorem length_add_le (r : Reorder α) (s : Serial) (item : α) :
    (r.add s item).pending.length + (r.add s item).forced.length ≤ r.pending.length + r.forced.length + 1 := by
  unfold add
  dsimp only
  split
  · exact r.length_insert_le _ s item
  · split
    · exact Nat.le_succ _
    · exact r.length_insert_le s s item

/-! ## Accounts -/

/-- Where the items that have arrived are: those of `lost` have been thrown away, those of `out` released, those of
`held` forced out, and the others wait, each under the number that it came with. -/
structure Accounts (arrived : List (Serial × α)) (r : Reorder α) (released : List α)
    (lost out held : List (Serial × α)) : Prop where
  dropped : lost.length = r.dropped
  released : out.map (·.2) = released
  forced : held.map (·.2) = r.forced
  all : (lost ++ (out ++ (held ++ r.pending))).Perm arrived

variable {arrived lost out held : List (Serial × α)} {r : Reorder α} {released : List α}

theorem Accounts.refuse (h : Accounts arrived r released lost out held) (e : Serial × α) (cursor : Option Serial) :
    Accounts (arrived ++ [e]) { r with cursor, dropped := r.dropped + 1 } released (e :: lost) out held where
  dropped := congrArg (· + 1) h.dropped
  released := h.released
  forced := h.forced
  all := (h.all.cons e).trans (List.perm_append_singleton e arrived).symm

theorem Accounts.enter (h : Accounts arrived r released lost out held) (e : Serial × α) (cursor : Option Serial) :
    Accounts (arrived ++ [e]) { r with cursor, pending := r.pending ++ [e] } released lost out held where
  dropped := h.dropped
  released := h.released
  forced := h.forced
  all := by
    have hall := h.all.append_right [e]
    simpa only [List.append_assoc] using hall

theorem Accounts.force (h : Accounts arrived r released lost out held) (hcap : 0 < r.capacity) (hp : r.pending ≠ [])
    (cursor : Serial) : ∃ lost' held', Accounts arrived (r.forceNearest cursor) released lost' out held' := by
  obtain ⟨s, item, hperm, hforced, hdropped, -⟩ := forceNearest_spec cursor hp
  have hmoved : (held ++ [(s, item)]).map (·.2) = r.forced ++ [item] := by
    rw [List.map_append, h.forced]
    rfl
  have hall : (lost ++ (out ++ (held ++ [(s, item)] ++ (r.forceNearest cursor).pending))).Perm arrived := by
    rw [List.append_assoc held]
    exact (((hperm.symm.append_left held).append_left out).append_left lost).trans h.all
  by_cases hfull : r.capacity ≤ r.forced.length
  · rw [if_pos hfull] at hforced hdropped
    -- The oldest item forced out gives way.
    obtain ⟨oldest, others, rfl⟩ : ∃ oldest others, held = oldest :: others := by
      refine List.exists_cons_of_ne_nil fun hnil => ?_
      rw [← h.forced, hnil, List.map_nil, List.length_nil] at hfull
      omega
    refine ⟨oldest :: lost, others ++ [(s, item)], ⟨?_, h.released, ?_, ?_⟩⟩
    · rw [hdropped, ← h.dropped, List.length_cons]
    · rw [hforced, ← h.forced, List.map_append]
      rfl
    · rw [← List.append_assoc] at hall
      exact (List.append_assoc _ _ _ ▸ List.perm_middle.symm).trans hall
  · rw [if_neg hfull] at hforced hdropped
    exact ⟨lost, held ++ [(s, item)], ⟨h.dropped.trans hdropped.symm, h.released, hmoved.trans hforced.symm, hall⟩⟩

theorem Accounts.collect (h : Accounts arrived r released lost out held) :
    ∃ out', Accounts arrived r.popReady.2 (released ++ r.popReady.1) lost out' [] := by
  obtain ⟨hforced, hdropped, -⟩ := r.popReady_spec
  obtain ⟨taken, hready, hperm⟩ := r.popReady_taken
  refine ⟨out ++ (held ++ taken), ⟨h.dropped.trans hdropped.symm, ?_, hforced.symm, ?_⟩⟩
  · rw [List.map_append, List.map_append, h.released, h.forced, hready]
  · rw [List.nil_append, List.append_assoc, List.append_assoc]
    exact (((hperm.symm.append_left held).append_left out).append_left lost).trans h.all

/-! ## Uses of a buffer -/

inductive Use (α : Type) where
  | add (s : Serial) (item : α)
  | collect

/-- A buffer and all that it has released, after one more use. -/
def use (state : Reorder α × List α) : Use α → Reorder α × List α
  | .add s item => (state.1.add s item, state.2)
  | .collect => (state.1.popReady.2, state.2 ++ state.1.popReady.1)

/-- A new buffer and all that it has released, after some uses. -/
def replay (capacity : Nat) (uses : List (Use α)) : Reorder α × List α := uses.foldl use (ofCapacity capacity, [])

def Use.entry? : Use α → Option (Serial × α)
  | .add s item => some (s, item)
  | .collect => none

/-- The items that are taken in, each with the number that it comes with. -/
def arrivals (uses : List (Use α)) : List (Serial × α) := uses.filterMap Use.entry?

/-- What holds of a buffer at every moment. -/
structure Balanced (limit : Nat) (arrived : List (Serial × α)) (state : Reorder α × List α) : Prop where
  capacity : state.1.capacity = limit
  pending_le : state.1.pending.length ≤ limit
  forced_le : state.1.forced.length ≤ limit
  accounts : ∃ lost out held, Accounts arrived state.1 state.2 lost out held

variable {limit : Nat} {state : Reorder α × List α}

theorem Balanced.refuse (h : Balanced limit arrived state) (e : Serial × α) (cursor : Option Serial) :
    Balanced limit (arrived ++ [e]) ({ state.1 with cursor, dropped := state.1.dropped + 1 }, state.2) := by
  obtain ⟨lost, out, held, ha⟩ := h.accounts
  exact ⟨h.capacity, h.pending_le, h.forced_le, e :: lost, out, held, ha.refuse e cursor⟩

/-- An item that waits makes room for itself when there is none. -/
theorem Balanced.insert (hl : 0 < limit) (h : Balanced limit arrived state) (cursor s : Serial) (item : α) :
    Balanced limit (arrived ++ [(s, item)]) (state.1.insert cursor s item, state.2) := by
  unfold Reorder.insert
  split
  · exact h.refuse (s, item) (some cursor)
  · obtain ⟨lost, out, held, ha⟩ := h.accounts
    have hin := ha.enter (s, item) (some cursor)
    simp only
    split
    · have hne : state.1.pending ++ [(s, item)] ≠ [] := by simp
      obtain ⟨lost', held', hout⟩ := hin.force (h.capacity.symm ▸ hl) hne cursor
      obtain ⟨_, _, hperm, hforced, -, hcapacity⟩ := forceNearest_spec
        (r := { state.1 with cursor := some cursor, pending := state.1.pending ++ [(s, item)] }) cursor hne
      have hcap := h.capacity
      have hpending := h.pending_le
      have hheld := h.forced_le
      refine ⟨hcapacity.trans hcap, ?_, ?_, lost', out, held', hout⟩
      · have hlen := hperm.length_eq
        simp only [List.length_append, List.length_cons, List.length_nil] at hlen ⊢
        omega
      · rw [hforced, List.length_append]
        dsimp only
        split <;> simp only [List.length_drop, List.length_cons, List.length_nil] <;> omega
    · rename_i hfits
      exact ⟨h.capacity, h.capacity ▸ Nat.not_lt.1 hfits, h.forced_le, lost, out, held, hin⟩

theorem Balanced.add (hl : 0 < limit) (h : Balanced limit arrived state) (s : Serial) (item : α) :
    Balanced limit (arrived ++ [(s, item)]) (state.1.add s item, state.2) := by
  unfold Reorder.add
  simp only
  split
  · exact h.insert hl _ s item
  · split
    · exact h.refuse (s, item) state.1.cursor
    · exact h.insert hl s s item

theorem Balanced.collect (h : Balanced limit arrived state) :
    Balanced limit arrived (state.1.popReady.2, state.2 ++ state.1.popReady.1) := by
  obtain ⟨lost, out, held, ha⟩ := h.accounts
  obtain ⟨out', ha'⟩ := ha.collect
  obtain ⟨hforced, -, hcapacity, -⟩ := state.1.popReady_spec
  obtain ⟨taken, -, hperm⟩ := state.1.popReady_taken
  refine ⟨hcapacity.trans h.capacity, ?_, ?_, lost, out', [], ha'⟩
  · have hlen := hperm.length_eq
    have := h.pending_le
    simp only [List.length_append] at hlen ⊢
    omega
  · rw [hforced]
    exact Nat.zero_le _

theorem Balanced.step (hl : 0 < limit) (h : Balanced limit arrived state) : ∀ u : Use α,
    Balanced limit (arrived ++ u.entry?.toList) (use state u)
  | .add s item => h.add hl s item
  | .collect => (List.append_nil arrived).symm ▸ h.collect

/-- **Any number of uses** keep the balance. -/
theorem Balanced.run (hl : 0 < limit) : ∀ (uses : List (Use α)) {arrived : List (Serial × α)}
    {state : Reorder α × List α}, Balanced limit arrived state →
      Balanced limit (arrived ++ arrivals uses) (uses.foldl use state)
  | [], arrived, _, h => (List.append_nil arrived).symm ▸ h
  | u :: uses, arrived, state, h => by
    have hall : arrived ++ arrivals (u :: uses) = arrived ++ u.entry?.toList ++ arrivals uses := by
      rw [arrivals, List.filterMap_cons, List.append_assoc]
      cases u.entry? <;> rfl
    rw [List.foldl_cons, hall]
    exact Balanced.run hl uses (h.step hl u)

theorem balanced_replay (capacity : Nat) (uses : List (Use α)) :
    Balanced (max capacity 1) (arrivals uses) (replay capacity uses) := by
  have hnew : Balanced (max capacity 1) [] ((ofCapacity capacity, []) : Reorder α × List α) :=
    ⟨rfl, Nat.zero_le _, Nat.zero_le _, [], [], [], rfl, rfl, rfl, List.Perm.refl _⟩
  have hall := Balanced.run (Nat.lt_of_lt_of_le Nat.one_pos (Nat.le_max_right capacity 1)) uses hnew
  rwa [List.nil_append] at hall

/-- A buffer of this capacity that has been used before, collecting last. -/
structure IsCollected (limit : Nat) (r : Reorder α) : Prop where
  balanced : ∃ arrived released, Balanced limit arrived (r, released)
  forced : r.forced = []

theorem isCollected_ofCapacity (capacity : Nat) : (ofCapacity capacity : Reorder α).IsCollected (max capacity 1) :=
  ⟨⟨_, _, balanced_replay capacity []⟩, rfl⟩

/-- **One arrival releases** at most what may wait and itself. -/
theorem IsCollected.arrive (hl : 0 < limit) (h : r.IsCollected limit) (s : Serial) (item : α) :
    (r.add s item).popReady.1.length ≤ limit + 1 ∧ (r.add s item).popReady.2.IsCollected limit := by
  obtain ⟨arrived, released, hbalanced⟩ := h.balanced
  refine ⟨?_, ⟨_, _, (hbalanced.add hl s item).collect⟩, (r.add s item).popReady_spec.1⟩
  have hready := (r.add s item).length_popReady_le
  have hadd := r.length_add_le s item
  have hpending : r.pending.length ≤ limit := hbalanced.pending_le
  rw [h.forced, List.length_nil] at hadd
  omega

/-- **A reorder buffer neither loses track of an item nor makes one up.**  However it is used, what waits and what has
been forced out stay within the capacity; every item taken in has been released, has been forced out, waits under its
number or is counted as dropped, and is in one of these places only; and collecting comes to an end. -/
theorem replay_conserves (capacity : Nat) (uses : List (Use α)) :
    let (r, released) := replay capacity uses
    r.size ≤ max capacity 1 ∧ r.forced.length ≤ max capacity 1 ∧
      (arrivals uses).length = released.length + r.size + r.forced.length + r.dropped ∧
      (∃ lost out held, lost.length = r.dropped ∧ out.map (·.2) = released ∧ held.map (·.2) = r.forced ∧
        (lost ++ (out ++ (held ++ r.pending))).Perm (arrivals uses)) ∧
      ∀ cursor, r.cursor = some cursor → ∃ run cursor',
        Drains cursor r.pending run r.popReady.2.pending cursor' ∧ r.popReady.1 = r.forced ++ run ∧
          r.popReady.2.cursor = some cursor' := by
  obtain ⟨-, hpending, hforced, lost, out, held, ha⟩ := balanced_replay capacity uses
  generalize replay capacity uses = state at *
  refine ⟨hpending, hforced, ?_, ⟨lost, out, held, ha.dropped, ha.released, ha.forced, ha.all⟩, fun cursor hc => ?_⟩
  · have hlen := ha.all.length_eq
    rw [List.length_append, List.length_append, List.length_append, ha.dropped] at hlen
    rw [size, ← ha.released, ← ha.forced, List.length_map, List.length_map]
    omega
  · obtain ⟨-, -, -, run, hrun, hdrain⟩ := state.1.popReady_spec
    rcases hdrain with ⟨c, cursor', hc', hcursor, hdrain⟩ | ⟨hnone, -⟩
    · rw [hc] at hc'
      obtain rfl := Option.some.inj hc'
      exact ⟨run, cursor', hdrain, hrun, hcursor⟩
    · rw [hc] at hnone
      cases hnone

/-- Two items may wait, four come after a gap, and nobody collects: two are forced out, and the third to be forced out
takes the place of the oldest. -/
example :
    (replay 2 [.add 0 'a', .collect, .add 2 'c', .add 3 'd', .add 4 'e', .add 5 'f', .add 7 'g']).1.forced =
      ['d', 'e'] := by
  decide

end Reorder
end VideoTransport
