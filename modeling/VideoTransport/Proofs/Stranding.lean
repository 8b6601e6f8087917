import VideoTransport.Proofs.Ascent
/-!
# Stranding — items left behind the cursor

The cursor of a reorder buffer moves forward over items that it releases or gives up, and never past one that waits
(`Forward.collect`, `Forward.insert`).  Before the first release an arrival may move it back, and nothing looks at what
that does to the items that wait already: seen from the new cursor, one of them may lie in the other half of the
circle.  It is then stranded, neither released nor thrown away, until the cursor has gone round the circle.  Such an
arrival is the only way in which a buffer comes to strand an item (`strands_iff_overreaches`), and a buffer that is
collected from after every arrival strands none (`inTurn_never_strands`).
-/
namespace VideoTransport

/-! ## Distances -/

namespace Serial

theorem toNat_distance (origin s : Serial) :
    (distance origin s).toNat = (65536 - origin.toNat + s.toNat) % 65536 := UInt16.toNat_sub s origin

theorem atOrAhead_iff (origin s : Serial) : atOrAhead origin s = true ↔ (distance origin s).toNat < 32768 := by
  rw [atOrAhead, decide_eq_true_eq, UInt16.lt_iff_toNat_lt, toNat_half]

theorem toNat_distance_pos {origin s : Serial} (h : s ≠ origin) : 0 < (distance origin s).toNat := by
  have hs := s.toNat_lt
  have ho := origin.toNat_lt
  rw [Ne, ← UInt16.toNat_inj] at h
  rw [toNat_distance]
  omega

@[simp] theorem toNat_distance_self (s : Serial) : (distance s s).toNat = 0 := by
  rw [distance, UInt16.sub_self, UInt16.toNat_zero]

/-- Behind a number that is nearer, the way is shorter by the way to it and one step. -/
theorem toNat_distance_passed {origin near s : Serial} (hle : (distance origin near).toNat ≤ (distance origin s).toNat)
    (hne : s ≠ near) :
    (distance (near + 1) s).toNat = (distance origin s).toNat - (distance origin near).toNat - 1 := by
  have hs := s.toNat_lt
  have ho := origin.toNat_lt
  have hn := near.toNat_lt
  rw [Ne, ← UInt16.toNat_inj] at hne
  rw [toNat_distance, toNat_distance] at hle
  rw [toNat_distance, toNat_distance, toNat_distance, UInt16.toNat_add, UInt16.toNat_one]
  omega

/-- Behind the cursor itself, the way is shorter by one step. -/
theorem toNat_distance_next {cursor s : Serial} (hne : s ≠ cursor) :
    (distance (cursor + 1) s).toNat = (distance cursor s).toNat - 1 := by
  have hpassed := toNat_distance_passed (by rw [toNat_distance_self]; exact Nat.zero_le _) hne
  rwa [toNat_distance_self] at hpassed

end Serial

namespace Reorder

variable {α : Type}

/-! ## The nearest item -/

theorem distance_nearest_le (cursor : Serial) : ∀ (items : List (Serial × α)) (best : Serial),
    Serial.distance cursor (nearest cursor best items) ≤ Serial.distance cursor best ∧
      ∀ e ∈ items, Serial.distance cursor (nearest cursor best items) ≤ Serial.distance cursor e.1
  | [], _ => ⟨UInt16.le_refl _, fun _ he => absurd he List.not_mem_nil⟩
  | f :: items, best => by
    rw [nearest, List.foldl_cons, ← nearest]
    split
    · rename_i hlt
      obtain ⟨hbest, hitems⟩ := distance_nearest_le cursor items f.1
      exact ⟨UInt16.le_trans hbest (UInt16.le_of_lt hlt), List.forall_mem_cons.2 ⟨hbest, hitems⟩⟩
    · rename_i hge
      obtain ⟨hbest, hitems⟩ := distance_nearest_le cursor items best
      exact ⟨hbest, List.forall_mem_cons.2 ⟨UInt16.le_trans hbest (UInt16.not_lt.1 hge), hitems⟩⟩

/-- **The cursor jumps past the nearest item.**  No item that waits is nearer than the one forced out. -/
theorem forceNearest_passes {r : Reorder α} (cursor : Serial) (h : r.pending ≠ []) : ∃ near item,
    r.pending.Perm ((near, item) :: (r.forceNearest cursor).pending) ∧
      (r.forceNearest cursor).cursor = some (near + 1) ∧ (r.forceNearest cursor).hasReleased = true ∧
      ∀ e ∈ r.pending, Serial.distance cursor near ≤ Serial.distance cursor e.1 := by
  obtain ⟨⟨t, b⟩, rest, hp⟩ := List.exists_cons_of_ne_nil h
  obtain ⟨hbest, hrest⟩ := distance_nearest_le cursor rest t
  have hmem : ∃ e ∈ r.pending, e.1 = nearest cursor t rest := by
    rw [hp]
    rcases nearest_mem cursor rest t with hn | ⟨e, he, hn⟩
    · exact ⟨(t, b), List.mem_cons_self, hn.symm⟩
    · exact ⟨e, List.mem_cons_of_mem _ he, hn⟩
  obtain ⟨item, left, htake⟩ := exists_takeOut hmem
  have hperm := takeOut_perm htake
  refine ⟨nearest cursor t rest, item, ?_⟩
  unfold forceNearest
  rw [hp] at htake hperm ⊢
  simp only [htake]
  exact ⟨hperm, trivial, trivial, List.forall_mem_cons.2 ⟨hbest, hrest⟩⟩

/-! ## Items behind the cursor -/

/-- The items that wait behind the cursor. -/
def stranded (r : Reorder α) : List (Serial × α) :=
  match r.cursor with
  | none => []
  | some cursor => r.pending.filter fun e => !Serial.atOrAhead cursor e.1

/-- No two items wait under one number, and none behind the cursor, without which none waits. -/
structure Forward (r : Reorder α) : Prop where
  nodup : (r.pending.map Prod.fst).Nodup
  ahead : ∀ e ∈ r.pending, ∃ cursor, r.cursor = some cursor ∧ Serial.atOrAhead cursor e.1 = true

variable {r : Reorder α}

theorem Forward.stranded (h : Forward r) : r.stranded = [] := by
  unfold Reorder.stranded
  split
  · rfl
  · rename_i cursor hc
    refine List.filter_eq_nil_iff.2 fun e he => ?_
    obtain ⟨cursor', hc', hahead⟩ := h.ahead e he
    rw [hc] at hc'
    obtain rfl := Option.some.inj hc'
    rw [hahead]
    exact Bool.false_ne_true

theorem stranded_ne_nil {cursor : Serial} (hc : r.cursor = some cursor) {e : Serial × α} (he : e ∈ r.pending)
    (hbehind : Serial.atOrAhead cursor e.1 = false) : r.stranded ≠ [] := by
  rw [stranded, hc]
  refine List.ne_nil_of_mem (a := e) (List.mem_filter.2 ⟨he, ?_⟩)
  rw [hbehind]
  rfl

theorem forward_ofCapacity (capacity : Nat) : (ofCapacity capacity : Reorder α).Forward :=
  ⟨List.nodup_nil, fun _ he => absurd he List.not_mem_nil⟩

/-- An item that waits beside another one does so under another number. -/
theorem ne_of_perm {s : Serial} {item : α} {pending left : List (Serial × α)} (hn : (pending.map Prod.fst).Nodup)
    (hp : pending.Perm ((s, item) :: left)) : (left.map Prod.fst).Nodup ∧ ∀ e ∈ left, e.1 ≠ s := by
  obtain ⟨hmem, hleft⟩ := List.nodup_cons.1 ((hp.map Prod.fst).nodup_iff.1 hn)
  exact ⟨hleft, fun e he hs => hmem (List.mem_map.2 ⟨e, he, hs⟩)⟩

/-! ## Collecting -/

theorem Drains.forward {cursor cursor' : Serial} {pending left : List (Serial × α)} {run : List α}
    (h : Drains cursor pending run left cursor') (hn : (pending.map Prod.fst).Nodup)
    (ha : ∀ e ∈ pending, Serial.atOrAhead cursor e.1 = true) :
    (left.map Prod.fst).Nodup ∧ ∀ e ∈ left, Serial.atOrAhead cursor' e.1 = true := by
  induction h with
  | stop _ => exact ⟨hn, ha⟩
  | @next cursor cursor' pending rest left item run htake _ ih =>
    have hperm := takeOut_perm htake
    obtain ⟨hrest, hne⟩ := ne_of_perm hn hperm
    refine ih hrest fun e he => ?_
    have hahead := (Serial.atOrAhead_iff _ _).1 (ha e (hperm.mem_iff.2 (List.mem_cons_of_mem _ he)))
    rw [Serial.atOrAhead_iff, Serial.toNat_distance_next (hne e he)]
    omega

/-- **Collecting passes only what it releases.** -/
theorem Forward.collect (h : Forward r) : Forward r.popReady.2 := by
  obtain ⟨-, -, -, run, -, hdrain⟩ := r.popReady_spec
  rcases hdrain with ⟨cursor, cursor', hc, hc', hdrain⟩ | ⟨hnone, -, hpending⟩
  · have hahead : ∀ e ∈ r.pending, Serial.atOrAhead cursor e.1 = true := fun e he => by
      obtain ⟨_, hc'', hahead⟩ := h.ahead e he
      rw [hc] at hc''
      obtain rfl := Option.some.inj hc''
      exact hahead
    obtain ⟨hn, hleft⟩ := hdrain.forward h.nodup hahead
    exact ⟨hn, fun e he => ⟨cursor', hc', hleft e he⟩⟩
  · refine ⟨hpending ▸ h.nodup, fun e he => ?_⟩
    obtain ⟨_, hc, -⟩ := h.ahead e (hpending ▸ he)
    rw [hnone] at hc
    cases hc

/-! ## Taking in -/

/-- Forcing out the nearest item leaves the others ahead, even if one was right opposite of the cursor. -/
theorem forward_forceNearest {cursor : Serial} (hne : r.pending ≠ []) (hn : (r.pending.map Prod.fst).Nodup)
    (hfar : ∀ e ∈ r.pending, Serial.distance cursor e.1 ≤ Serial.half) : Forward (r.forceNearest cursor) := by
  obtain ⟨near, item, hperm, hc, -, hle⟩ := forceNearest_passes cursor hne
  obtain ⟨hleft, hother⟩ := ne_of_perm hn hperm
  refine ⟨hleft, fun e he => ⟨near + 1, hc, ?_⟩⟩
  have hmem := hperm.mem_iff.2 (List.mem_cons_of_mem _ he)
  have hnear := UInt16.le_iff_toNat_le.1 (hle e hmem)
  have hhalf := UInt16.le_iff_toNat_le.1 (hfar e hmem)
  rw [Serial.toNat_half] at hhalf
  rw [Serial.atOrAhead_iff, Serial.toNat_distance_passed hnear (hother e he)]
  omega

theorem insert_of_known {cursor s : Serial} {item : α} (h : ∃ e ∈ r.pending, e.1 = s) :
    r.insert cursor s item = { r with cursor := some cursor, dropped := r.dropped + 1 } := by
  obtain ⟨e, he, hs⟩ := h
  exact if_pos (List.any_eq_true.2 ⟨e, he, decide_eq_true hs⟩)

theorem insert_of_new {cursor s : Serial} {item : α} (h : ∀ e ∈ r.pending, e.1 ≠ s) :
    r.insert cursor s item =
      let grown := { r with cursor := some cursor, pending := r.pending ++ [(s, item)] }
      if r.size < r.capacity then grown else grown.forceNearest cursor := by
  have hany : r.pending.any (fun e => decide (e.1 = s)) = false :=
    List.any_eq_false.2 fun e he => by rw [decide_eq_true_eq]; exact h e he
  unfold insert
  rw [hany, if_neg Bool.false_ne_true]
  dsimp only
  rw [List.length_append, List.length_singleton]
  by_cases hroom : r.size < r.capacity
  · have hfits : ¬r.capacity < r.pending.length + 1 := Nat.not_lt.2 hroom
    rw [if_pos hroom, if_neg hfits]
  · have hfull : r.capacity < r.pending.length + 1 := Nat.lt_succ_of_le (Nat.not_lt.1 hroom)
    rw [if_neg hroom, if_pos hfull]

/-- **A new item passes none that waits** as long as all of them are within reach of the cursor. -/
theorem Forward.insert {cursor s : Serial} {item : α} (hn : (r.pending.map Prod.fst).Nodup)
    (hnew : ∀ e ∈ r.pending, e.1 ≠ s) (hs : Serial.atOrAhead cursor s = true)
    (hfar : ∀ e ∈ r.pending, Serial.distance cursor e.1 < Serial.half ∨
      Serial.distance cursor e.1 = Serial.half ∧ ¬r.size < r.capacity) : Forward (r.insert cursor s item) := by
  have hnodup : ((r.pending ++ [(s, item)]).map Prod.fst).Nodup := by
    rw [List.map_append, List.nodup_append]
    refine ⟨hn, List.pairwise_singleton _ s, fun t ht u hu htu => ?_⟩
    obtain ⟨e, he, rfl⟩ := List.mem_map.1 ht
    exact hnew e he (htu.trans (List.mem_singleton.1 hu))
  rw [insert_of_new hnew]
  dsimp only
  split
  · rename_i hroom
    refine ⟨hnodup, fun e he => ⟨cursor, rfl, ?_⟩⟩
    rcases List.mem_append.1 he with he | he
    · rcases hfar e he with hlt | ⟨-, hfull⟩
      · exact decide_eq_true hlt
      · exact absurd hroom hfull
    · obtain rfl := List.mem_singleton.1 he
      exact hs
  · refine forward_forceNearest (by simp) hnodup fun e he => ?_
    rcases List.mem_append.1 he with he | he
    · rcases hfar e he with hlt | ⟨heq, -⟩
      · exact UInt16.le_of_lt hlt
      · exact UInt16.le_of_eq heq
    · obtain rfl := List.mem_singleton.1 he
      exact UInt16.le_of_lt (of_decide_eq_true hs)

/-! ## Moving the cursor back -/

/-- The arrival of `s` moves the cursor of a buffer back, so far that an item which waits already lies in the other
half of the circle.  An item right opposite of `s` is met all the same if there is no room, since `s` is then forced
out at once and the cursor goes one on. -/
structure Overreaches (r : Reorder α) (s : Serial) : Prop where
  unreleased : r.hasReleased = false
  back : ∃ cursor, r.cursor = some cursor ∧ Serial.atOrAhead cursor s = false
  far : ∃ e ∈ r.pending, Serial.half < Serial.distance s e.1 ∨
    Serial.distance s e.1 = Serial.half ∧ r.size < r.capacity

theorem Forward.ne_of_behind (h : Forward r) {cursor s : Serial} (hc : r.cursor = some cursor)
    (hs : Serial.atOrAhead cursor s = false) : ∀ e ∈ r.pending, e.1 ≠ s := by
  rintro e he rfl
  obtain ⟨_, hc', hahead⟩ := h.ahead e he
  obtain rfl := Option.some.inj (hc.symm.trans hc')
  rw [hs] at hahead
  cases hahead

theorem add_of_cursor {cursor : Serial} (hc : r.cursor = some cursor) (s : Serial) (item : α) :
    r.add s item =
      if Serial.atOrAhead cursor s then r.insert cursor s item
      else if r.hasReleased then { r with dropped := r.dropped + 1 }
      else r.insert s s item := by
  have hcursor : r.cursor.getD s = cursor := by
    rw [hc]
    rfl
  unfold Reorder.add
  simp only [hcursor]

/-- **An arrival that does not overreach** leaves all items ahead of the cursor. -/
theorem Forward.add (h : Forward r) {s : Serial} (item : α) (hreach : ¬Overreaches r s) :
    Forward (r.add s item) := by
  have hself : Serial.atOrAhead s s = true := by rw [Serial.atOrAhead_iff, Serial.toNat_distance_self]; decide
  cases hc : r.cursor with
  | none =>
    have hempty : ∀ e ∈ r.pending, False := fun e he => by
      obtain ⟨_, hc', -⟩ := h.ahead e he
      rw [hc] at hc'
      cases hc'
    unfold Reorder.add
    rw [hc, Option.getD_none]
    dsimp only
    rw [if_pos hself]
    exact Forward.insert h.nodup (fun e he => (hempty e he).elim) hself fun e he => (hempty e he).elim
  | some cursor =>
    have hheld : ∀ e ∈ r.pending, Serial.atOrAhead cursor e.1 = true := fun e he => by
      obtain ⟨_, hc', hahead⟩ := h.ahead e he
      obtain rfl := Option.some.inj (hc.symm.trans hc')
      exact hahead
    rw [add_of_cursor hc]
    split
    · rename_i hs
      by_cases hknown : ∃ e ∈ r.pending, e.1 = s
      · rw [insert_of_known hknown]
        exact ⟨h.nodup, fun e he => ⟨cursor, rfl, hheld e he⟩⟩
      · refine Forward.insert h.nodup (fun e he hes => hknown ⟨e, he, hes⟩) hs fun e he => ?_
        exact .inl (of_decide_eq_true (hheld e he))
    · rename_i hs
      have hbehind := Bool.eq_false_iff.2 hs
      split
      · exact ⟨h.nodup, h.ahead⟩
      · rename_i hreleased
        refine Forward.insert h.nodup (h.ne_of_behind hc hbehind) hself fun e he => ?_
        by_contra hfar
        rw [not_or, not_and_or, not_not] at hfar
        refine hreach ⟨Bool.eq_false_iff.2 hreleased, ⟨cursor, hc, hbehind⟩, e, he, ?_⟩
        rcases UInt16.lt_or_eq_of_le (UInt16.not_lt.1 hfar.1) with hlt | heq
        · exact .inl hlt
        · exact .inr ⟨heq.symm, hfar.2.resolve_left fun hne => hne heq.symm⟩

/-- **An arrival that overreaches** strands an item. -/
theorem Forward.strands (h : Forward r) {s : Serial} (item : α) (hreach : Overreaches r s) :
    (r.add s item).stranded ≠ [] := by
  obtain ⟨hreleased, ⟨cursor, hc, hbehind⟩, e, he, hfar⟩ := hreach
  have hnew := h.ne_of_behind hc hbehind
  rw [add_of_cursor hc, hbehind, hreleased, if_neg Bool.false_ne_true, if_neg Bool.false_ne_true, insert_of_new hnew]
  dsimp only
  have hmem : e ∈ r.pending ++ [(s, item)] := List.mem_append_left _ he
  split
  · refine stranded_ne_nil rfl hmem ?_
    rw [Serial.atOrAhead, decide_eq_false_iff_not, UInt16.not_lt]
    exact hfar.elim UInt16.le_of_lt fun hopposite => UInt16.le_of_eq hopposite.1.symm
  · rename_i hfull
    have hlt := UInt16.lt_iff_toNat_lt.1 (hfar.resolve_right fun hopposite => hfull hopposite.2)
    obtain ⟨near, forced, hperm, hcursor, -, hle⟩ := forceNearest_passes
      (r := { r with cursor := some s, pending := r.pending ++ [(s, item)] }) s (by simp)
    -- Nothing is nearer to `s` than itself.
    have hnear : near = s := by
      by_contra hne
      have hpos := Serial.toNat_distance_pos hne
      have hself := UInt16.le_iff_toNat_le.1 (hle (s, item) (List.mem_append_right _ (List.mem_singleton.2 rfl)))
      rw [Serial.toNat_distance_self] at hself
      omega
    rw [hnear] at hcursor hperm
    have hleft := (List.mem_cons.1 (hperm.mem_iff.1 hmem)).resolve_left fun heq => hnew e he (congrArg Prod.fst heq)
    refine stranded_ne_nil hcursor hleft ?_
    rw [← Bool.not_eq_true, Serial.atOrAhead_iff, Serial.toNat_distance_next (hnew e he)]
    rw [Serial.toNat_half] at hlt
    omega

/-! ## Runs -/

theorem replay_append (capacity : Nat) (uses more : List (Use α)) :
    replay capacity (uses ++ more) = more.foldl use (replay capacity uses) := List.foldl_append

theorem replay_append_singleton (capacity : Nat) (uses : List (Use α)) (u : Use α) :
    replay capacity (uses ++ [u]) = use (replay capacity uses) u := replay_append capacity uses [u]

/-- **As long as no arrival overreaches**, all that waits is ahead; and the first one that does finds it so. -/
theorem forward_or_overreaches (capacity : Nat) (uses : List (Use α)) :
    (replay capacity uses).1.Forward ∨ ∃ taken s item, taken ++ [.add s item] <+: uses ∧
      (replay capacity taken).1.Forward ∧ (replay capacity taken).1.Overreaches s := by
  induction uses using List.reverseRecOn with
  | nil => exact .inl (forward_ofCapacity capacity)
  | append_singleton uses u ih =>
    rcases ih with hforward | ⟨taken, s, item, htaken, hforward, hreach⟩
    · rw [replay_append_singleton]
      cases u with
      | collect => exact .inl hforward.collect
      | add s item =>
        by_cases hreach : (replay capacity uses).1.Overreaches s
        · exact .inr ⟨uses, s, item, List.prefix_refl _, hforward, hreach⟩
        · exact .inl (hforward.add item hreach)
    · exact .inr ⟨taken, s, item, htaken.trans (List.prefix_append uses [u]), hforward, hreach⟩

/-- **A buffer strands an item exactly if an arrival overreaches.**  However it is used, with any numbers, an item
comes to wait behind the cursor at some moment if and only if before the first release some item arrives that moves the
cursor back past half of the circle from one that waits.  So nothing is stranded by collecting, by forcing out, or by
any arrival once something has been released. -/
theorem strands_iff_overreaches (capacity : Nat) (uses : List (Use α)) :
    (∃ taken, taken <+: uses ∧ (replay capacity taken).1.stranded ≠ []) ↔
      ∃ taken s item, taken ++ [.add s item] <+: uses ∧ (replay capacity taken).1.Overreaches s := by
  constructor
  · rintro ⟨taken, htaken, hstranded⟩
    rcases forward_or_overreaches capacity taken with hforward | ⟨first, s, item, hfirst, -, hreach⟩
    · exact absurd hforward.stranded hstranded
    · exact ⟨first, s, item, hfirst.trans htaken, hreach⟩
  · rintro ⟨taken, s, item, htaken, hreach⟩
    obtain ⟨first, t, thing, hfirst, hforward, hreach⟩ : ∃ first t thing, first ++ [.add t thing] <+: uses ∧
        (replay capacity first).1.Forward ∧ (replay capacity first).1.Overreaches t := by
      rcases forward_or_overreaches capacity taken with hforward | ⟨first, t, thing, hfirst, hforward, hreach'⟩
      · exact ⟨taken, s, item, htaken, hforward, hreach⟩
      · exact ⟨first, t, thing, hfirst.trans ((List.prefix_append _ _).trans htaken), hforward, hreach'⟩
    refine ⟨first ++ [.add t thing], hfirst, ?_⟩
    rw [replay_append_singleton]
    exact hforward.strands thing hreach

/-- Number 0x7000 is ahead of 0, and 0x9000 is behind it and moves the cursor back to itself.  From there 0x7000 is in
the other half of the circle; when 0x9000 and nothing else has been released, it waits behind the cursor. -/
theorem strands_rewound : ¬∀ (capacity : Nat) (uses : List (Use Char)), (replay capacity uses).1.stranded = [] :=
  fun h => absurd (h 64 [.add 0 'a', .add 0x7000 'b', .add 0x9000 'c', .collect]) (by decide)

/-! ## The discipline -/

/-- In a use of every item in turn, an arrival comes when all before it have been collected for. -/
theorem exists_inTurn {taken : List (Use (Serial × α))} {s : Serial} {item : Serial × α} :
    ∀ {entries : List (Serial × α)}, taken ++ [.add s item] <+: inTurn entries →
      ∃ before, taken = inTurn before
  | [], h => absurd (List.prefix_nil.1 h) (by simp)
  | e :: rest, h => by
    have hinTurn : inTurn (e :: rest) = .add e.1 e :: .collect :: inTurn rest := rfl
    rw [hinTurn] at h
    match taken with
    | [] => exact ⟨[], rfl⟩
    | [_] => exact absurd (List.cons_prefix_cons.1 (List.cons_prefix_cons.1 h).2).1 (by simp)
    | u :: v :: more =>
      obtain ⟨hu, hmore⟩ := List.cons_prefix_cons.1 h
      obtain ⟨hv, hmore⟩ := List.cons_prefix_cons.1 hmore
      obtain ⟨before, rfl⟩ := exists_inTurn hmore
      exact ⟨e :: before, by rw [hu, hv]; rfl⟩

theorem not_overreaches_inTurn (capacity : Nat) (before : List (Serial × α)) (s : Serial) :
    ¬(replay capacity (inTurn before)).1.Overreaches s := by
  intro hreach
  cases before with
  | nil =>
    obtain ⟨cursor, hc, -⟩ := hreach.back
    cases hc
  | cons first rest =>
    obtain ⟨b, hsettled⟩ := (settled_first capacity first).run rest
    obtain ⟨_, _, hspans, -⟩ := hsettled.waits
    have hreleased : (replay capacity (inTurn (first :: rest))).1.hasReleased = true := hspans.hasReleased
    rw [hreach.unreleased] at hreleased
    cases hreleased

/-- **A buffer that is collected from after every arrival strands nothing**, whatever the numbers. -/
theorem inTurn_never_strands (capacity : Nat) (entries : List (Serial × α)) :
    ∀ taken, taken <+: inTurn entries → (replay capacity taken).1.stranded = [] := by
  intro taken htaken
  rcases forward_or_overreaches capacity taken with hforward | ⟨first, s, item, hfirst, -, hreach⟩
  · exact hforward.stranded
  · obtain ⟨before, rfl⟩ := exists_inTurn (hfirst.trans htaken)
    exact absurd hreach (not_overreaches_inTurn capacity before s)

end Reorder
end VideoTransport
