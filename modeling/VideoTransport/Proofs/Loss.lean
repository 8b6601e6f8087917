import VideoTransport.Proofs.Following
/-!
# Loss — what comes out when packets are lost

Some packets of a stream are lost and the others reach an assembler in order.  A frame then holds what was kept of its
unit if nothing has been missed since the packet before the unit, or since the first packet kept; otherwise it is
broken (`Place.remembered`).  So the units that come out are known exactly (`Caught`), and with them what is counted.
-/
namespace VideoTransport

open Serial (nth)

/-! ## Feeding an assembler -/

namespace Assembler

/-- Hand a datagram to an assembler whose pool is as the application has left it; units that come out are put behind
those before. -/
def hand (r : Assembler × List AccessUnit) (d : Pool × Bytes) : Assembler × List AccessUnit :=
  match Rtp.Packet.parse d.2 with
  | .error _ => r
  | .ok packet =>
    match { r.1 with pool := d.1 }.process packet with
    | (a, .ok (some unit)) => (a, r.2 ++ [unit])
    | (a, _) => (a, r.2)

theorem hand_of_parse {r : Assembler × List AccessUnit} {d : Pool × Bytes} {packet : Rtp.Packet}
    (hp : Rtp.Packet.parse d.2 = .ok packet) {due : Option AccessUnit}
    (ho : ({ r.1 with pool := d.1 }.process packet).2 = d.1.grant due) :
    hand r d = (({ r.1 with pool := d.1 }.process packet).1, r.2 ++ (d.1.granted due).toList) := by
  simp only [hand, hp]
  generalize { r.1 with pool := d.1 }.process packet = result at ho
  obtain ⟨b, outcome⟩ := result
  have ho : outcome = d.1.grant due := ho
  rw [ho]
  cases due with
  | none => simp [Pool.grant]
  | some u => by_cases hroom : d.1.HasRoom <;> simp [Pool.grant, Pool.granted, hroom]

def feed (a : Assembler) (ds : List (Pool × Bytes)) : Assembler × List AccessUnit := ds.foldl hand (a, [])

end Assembler

namespace Packetizer

/-- The packets of a stream that are kept, each with the pool that the assembler finds then. -/
def kept (p : Packetizer) (units : List AccessUnit) (keep : Nat → Bool) (pools : Nat → Pool) : List (Pool × Bytes) :=
  (p.packetsOf units).zipIdx.filterMap fun e => if keep e.2 then some (pools e.2, e.1) else none

end Packetizer

/-! ## Gathering along a list -/

section Gathering

variable {α β : Type} {l : List α} {g : α × Nat → Option β}

theorem gather_add_one {m : Nat} {x : α} (h : l[m]? = some x) :
    (l.take (m + 1)).zipIdx.filterMap g = (l.take m).zipIdx.filterMap g ++ (g (x, m)).toList := by
  have hlen : (l.take m).length = m := List.length_take_of_le (Nat.le_of_lt (List.getElem?_eq_some_iff.1 h).1)
  rw [List.take_add_one, h, List.zipIdx_append, List.filterMap_append, hlen, Nat.zero_add]
  cases hg : g (x, m) <;> simp [hg]

theorem gather_skip {m : Nat} : ∀ n, m ≤ n → (∀ w x, m ≤ w → w < n → l[w]? = some x → g (x, w) = none) →
    (l.take n).zipIdx.filterMap g = (l.take m).zipIdx.filterMap g
  | 0, hmn, _ => by rw [Nat.le_zero.1 hmn]
  | n + 1, hmn, h => by
    rcases Nat.lt_or_eq_of_le hmn with hlt | rfl
    · have ih := gather_skip n (Nat.le_of_lt_succ hlt) fun w x hm hw => h w x hm (Nat.lt_succ_of_lt hw)
      cases hx : l[n]? with
      | none => rw [List.take_add_one, hx, Option.toList_none, List.append_nil, ih]
      | some x =>
        rw [gather_add_one hx, h n x (Nat.le_of_lt_succ hlt) (Nat.lt_succ_self n) hx, ih]
        exact List.append_nil _
    · rfl

end Gathering

namespace Packetizer

variable {p : Packetizer} {units : List AccessUnit} {keep : Nat → Bool} {pools : Nat → Pool} {first i k n : Nat}

/-! ## What is remembered of a unit -/

/-- All packets before position `stop` are kept, from the one before position `start` on, or from `first` on. -/
def isUnbroken (keep : Nat → Bool) (first start stop : Nat) : Bool :=
  (List.range stop).all fun i => i < first || i + 1 < start || keep i

theorem isUnbroken_iff {start stop : Nat} :
    isUnbroken keep first start stop = true ↔ ∀ i, first ≤ i → start ≤ i + 1 → i < stop → keep i = true := by
  simp only [isUnbroken, List.all_eq_true, List.mem_range, Bool.or_eq_true, decide_eq_true_eq]
  constructor
  · intro h i h1 h2 h3
    rcases h i h3 with (h | h) | h
    · omega
    · omega
    · exact h
  · intro h i h3
    by_cases h1 : first ≤ i
    · by_cases h2 : start ≤ i + 1
      · exact .inr (h i h1 h2 h3)
      · exact .inl (.inr (by omega))
    · exact .inl (.inl (by omega))

/-- What the frame of a packet holds when `first` is the first packet kept. -/
def Place.remembered (x : Place p units i) (keep : Nat → Bool) (first : Nat) : FrameContent :=
  if isUnbroken keep first (p.position units x.number) (i + 1) then x.soFar (first - p.position units x.number)
  else .broken

/-- **From one packet kept to the next** a frame goes on to hold what is remembered. -/
theorem Place.remembered_next {x : Place p units i} {y : Place p units k} (hf : first ≤ i) (hlt : i < k)
    (hi : keep i = true) (hk : keep k = true) (hgap : ∀ j, i < j → j < k → keep j = false) :
    (x.ongoing y (x.remembered keep first)).hear y.draft.payload = y.remembered keep first := by
  by_cases hnext : k = i + 1
  · subst hnext
    rw [ongoing, if_pos rfl]
    rcases x.next_cases y with ⟨hn, hj, -⟩ | ⟨hn, hj, -⟩
    · have hpos := x.position_eq
      have hiff : isUnbroken keep first (p.position units x.number) (i + 1) =
          isUnbroken keep first (p.position units x.number) (i + 1 + 1) := by
        rw [Bool.eq_iff_iff, isUnbroken_iff, isUnbroken_iff]
        constructor
        · intro h j h1 h2 h3
          rcases Nat.lt_or_eq_of_le (Nat.le_of_lt_succ h3) with hj | rfl
          · exact h j h1 h2 hj
          · exact hk
        · intro h j h1 h2 h3
          exact h j h1 h2 (Nat.lt_succ_of_lt h3)
      rw [if_pos hn, remembered, remembered, ← hn, hiff]
      split
      · exact (soFar_next hn hj (by omega)).symm
      · exact FrameContent.hear_broken _
    · have hpos := y.position_eq
      have hwhole : isUnbroken keep first (p.position units y.number) (i + 1 + 1) = true := by
        rw [isUnbroken_iff]
        intro j h1 h2 h3
        obtain rfl | rfl : j = i ∨ j = i + 1 := by omega
        · exact hi
        · exact hk
      have hzero : first - p.position units y.number = y.index := by omega
      rw [if_neg (Nat.ne_of_lt hn), remembered, if_pos hwhole, hzero, soFar_index]
  · have hbroken : ¬isUnbroken keep first (p.position units y.number) (k + 1) = true := by
      intro h
      have hpos := y.position_le
      have := isUnbroken_iff.1 h (k - 1) (by omega) (by omega) (by omega)
      rw [hgap (k - 1) (by omega) (by omega)] at this
      cases this
    rw [ongoing, if_neg hnext, remembered, if_neg hbroken]
    exact FrameContent.hear_broken _

/-! ## What comes out of a unit -/

/-- What comes out of a unit when `first` is the first packet kept. -/
def emission (p : Packetizer) (units : List AccessUnit) (keep : Nat → Bool) (pools : Nat → Pool) (first : Nat)
    (e : AccessUnit × Nat) : Option AccessUnit :=
  let start := p.position units e.2
  let stop := p.position units (e.2 + 1)
  if first < stop && isUnbroken keep first start stop then
    (pools (stop - 1)).granted
      ((FrameContent.ofDrafts ((p.drafts e.1).drop (first - start))).unit? e.1.timestamp)
  else none

theorem emission_of_marker {x : Place p units i} (hf : first ≤ i) (hm : x.draft.marker = true) :
    p.emission units keep pools first (x.unit, x.number) =
      (pools i).granted (x.due (x.remembered keep first)) := by
  have hpos := x.position_eq
  have hend := x.marker_iff.1 hm
  have hall : (p.drafts x.unit).take (x.index + 1) = p.drafts x.unit := by
    rw [position_succ x.unit_at] at hend
    exact List.take_of_length_le (by omega)
  unfold emission Place.remembered
  simp only [← hend, Nat.add_sub_cancel, decide_eq_true (Nat.lt_succ_of_le hf), Bool.true_and]
  split
  · rw [Place.due, if_pos hm, Place.soFar, hall]
  · rw [Place.due, if_pos hm, FrameContent.unit?_broken, Pool.granted_none]

/-- Nothing comes out of a unit whose last packet is lost. -/
theorem emission_of_lost {u : AccessUnit} {w : Nat} (hle : p.position units w < p.position units (w + 1))
    (hlost : keep (p.position units (w + 1) - 1) = false) : p.emission units keep pools first (u, w) = none := by
  refine if_neg fun h => ?_
  rw [Bool.and_eq_true, decide_eq_true_eq] at h
  obtain ⟨h1, h2⟩ : first < p.position units (w + 1) ∧
    isUnbroken keep first (p.position units w) (p.position units (w + 1)) = true := h
  have := isUnbroken_iff.1 h2 (p.position units (w + 1) - 1) (by omega) (by omega) (by omega)
  rw [hlost] at this
  cases this

/-! ## Along the stream -/

/-- The positions of the packets of unit number `w`. -/
def positions (p : Packetizer) (units : List AccessUnit) (w : Nat) : List Nat :=
  List.range' (p.position units w) (p.position units (w + 1) - p.position units w)

theorem mem_positions {w j : Nat} :
    j ∈ p.positions units w ↔ p.position units w ≤ j ∧ j < p.position units (w + 1) := by
  rw [positions, List.mem_range'_1]
  omega

/-- Whether some packet of unit number `w` is kept. -/
def isTouched (p : Packetizer) (units : List AccessUnit) (keep : Nat → Bool) (w : Nat) : Bool :=
  (p.positions units w).any keep

theorem isTouched_of_place (x : Place p units i) (h : keep i = true) : p.isTouched units keep x.number = true :=
  List.any_eq_true.2 ⟨i, mem_positions.2 ⟨x.position_le, x.lt_position⟩, h⟩

theorem not_isTouched {w : Nat} (h : ∀ j, p.position units w ≤ j → j < p.position units (w + 1) → keep j = false) :
    p.isTouched units keep w = false := by
  rw [isTouched, List.any_eq_false]
  intro j hj
  obtain ⟨h1, h2⟩ := mem_positions.1 hj
  rw [h j h1 h2]
  exact Bool.false_ne_true

def touched (p : Packetizer) (units : List AccessUnit) (keep : Nat → Bool) (m : Nat) : List (AccessUnit × Nat) :=
  (units.take m).zipIdx.filterMap (Option.guard fun e => p.isTouched units keep e.2)

theorem touched_skip {m n : Nat} (hmn : m ≤ n)
    (h : ∀ j, p.position units m ≤ j → j < p.position units n → keep j = false) :
    p.touched units keep n = p.touched units keep m := by
  refine gather_skip n hmn fun w u hm hn _ => ?_
  have hw : p.isTouched units keep w = false := not_isTouched fun j h1 h2 =>
    h j (Nat.le_trans (position_mono hm) h1) (Nat.lt_of_lt_of_le h2 (position_mono hn))
  simp [hw]

theorem length_touched_place (x : Place p units i) (h : keep i = true) :
    (p.touched units keep (x.number + 1)).length = (p.touched units keep x.number).length + 1 := by
  rw [touched, gather_add_one x.unit_at, List.length_append, ← touched]
  simp [isTouched_of_place x h]

/-- What has come out when position `n` is reached and the latest packet kept was that of place `x`. -/
structure Caught (keep : Nat → Bool) (pools : Nat → Pool) (first : Nat) (x : Place p units i) (n : Nat)
    (r : Assembler × List AccessUnit) : Prop where
  first_le : first ≤ i
  lt : i < n
  latest : keep i = true
  gap : ∀ j, i < j → j < n → keep j = false
  follows : ∃ older, Follows r.1 x (x.remembered keep first) older
  emitted : r.2 = (units.take (x.number + if x.draft.marker then 1 else 0)).zipIdx.filterMap
    (p.emission units keep pools first)
  accounts : (∀ j, (pools j).HasRoom) → r.1.stats.completed = r.2.length ∧
    r.1.stats.completed + r.1.stats.dropped + r.1.pending = (p.touched units keep (x.number + 1)).length

theorem caught_of_accounted {y : Place p units k} {a b : Assembler} {emitted : List AccessUnit} {older : List Frame}
    {begins : Bool} {outcome : Except Fault (Option AccessUnit)} (hf : first ≤ k) (hk : keep k = true)
    (hfollows : Follows b y (y.remembered keep first) older)
    (ha : Accounted a y (y.remembered keep first) begins b outcome) (hpool : a.pool = pools k)
    (he : emitted = (units.take y.number).zipIdx.filterMap (p.emission units keep pools first))
    (hcount : (∀ j, (pools j).HasRoom) → a.stats.completed = emitted.length ∧
      a.stats.completed + a.stats.dropped + a.pending + (if begins then 1 else 0) =
        (p.touched units keep (y.number + 1)).length) :
    Caught keep pools first y (k + 1)
      (b, emitted ++ ((pools k).granted (y.due (y.remembered keep first))).toList) where
  first_le := hf
  lt := Nat.lt_succ_self k
  latest := hk
  gap j h1 h2 := absurd h2 (Nat.not_lt.2 h1)
  follows := ⟨older, hfollows⟩
  emitted := by
    cases hm : y.draft.marker with
    | false =>
      have hnone : y.due (y.remembered keep first) = none := by rw [Place.due, hm, if_neg Bool.false_ne_true]
      rw [hnone, Pool.granted_none, Option.toList_none, List.append_nil, he, if_neg Bool.false_ne_true, Nat.add_zero]
    | true => rw [if_pos rfl, gather_add_one y.unit_at, emission_of_marker hf hm, he]
  accounts hroom := by
    obtain ⟨h1, h2⟩ := hcount hroom
    have hc := ha.completed
    have hd := ha.frames
    rw [hpool, Pool.granted_of_room (hroom k)] at hc
    rw [Pool.granted_of_room (hroom k), List.length_append]
    cases hdue : y.due (y.remembered keep first) <;>
      simp only [hdue, Option.isSome_none, Option.isSome_some, Bool.false_eq_true, if_true, if_false,
        Option.toList_none, Option.toList_some, List.length_nil, List.length_singleton] at hc hd ⊢ <;> omega

/-! ## From packet to packet -/

variable {packet : Rtp.Packet} {datagram : Bytes}

theorem Place.remembered_first (y : Place p units first) (hk : keep first = true) :
    y.remembered keep first = FrameContent.hear (.intact [] none) y.draft.payload := by
  have hunbroken : isUnbroken keep first (p.position units y.number) (first + 1) = true := by
    rw [isUnbroken_iff]
    intro j h1 _ h3
    rw [Nat.le_antisymm (Nat.le_of_lt_succ h3) h1]
    exact hk
  have hindex : first - p.position units y.number = y.index := by
    have := y.position_eq
    omega
  rw [remembered, if_pos hunbroken, hindex, soFar_index]

/-- The first packet kept reaches a new assembler. -/
theorem caught_first (hu : Streamable units) (hc : p.cipher.IsSound) (pool : Pool) (limit : Nat)
    {y : Place p units first} (hk : keep first = true) (hbefore : ∀ j, j < first → keep j = false)
    (hy : y.Carries packet) (hp : Rtp.Packet.parse datagram = .ok packet) :
    Caught keep pools first y (first + 1)
      (Assembler.hand (Assembler.create p.cipher pool limit, []) (pools first, datagram)) := by
  let a : Assembler := { Assembler.create p.cipher pool limit with pool := pools first }
  have hheard : a.heard packet (.intact [] none) = y.remembered keep first :=
    (Assembler.heard_of_sound hc rfl hy _).trans (y.remembered_first hk).symm
  have hnew : a = Assembler.create p.cipher (pools first) limit := rfl
  obtain ⟨older, hfollows, ha⟩ := follows_first hu.distinct hy hnew
  rw [hheard] at hfollows ha
  have hhand := Assembler.hand_of_parse (r := (Assembler.create p.cipher pool limit, []))
    (d := (pools first, datagram)) hp ha.outcome
  rw [hhand]
  have hnone : ∀ j, p.position units 0 ≤ j → j < p.position units y.number → keep j = false :=
    fun j _ hj => hbefore j (Nat.lt_of_lt_of_le hj y.position_le)
  refine caught_of_accounted (Nat.le_refl first) hk hfollows ha rfl ?_ fun _ => ⟨rfl, ?_⟩
  · refine (gather_skip y.number (Nat.zero_le _) fun w u _ hw _ => ?_).symm
    have hstop : p.position units (w + 1) ≤ first := Nat.le_trans (position_mono hw) y.position_le
    refine if_neg fun h => ?_
    rw [Bool.and_eq_true, decide_eq_true_eq] at h
    exact Nat.not_lt.2 hstop h.1
  · rw [length_touched_place y hk, touched_skip (Nat.zero_le _) hnone]
    rfl

theorem Caught.skip {x : Place p units i} {r : Assembler × List AccessUnit} (h : Caught keep pools first x n r)
    (hn : keep n = false) : Caught keep pools first x (n + 1) r :=
  { h with
    lt := Nat.lt_succ_of_lt h.lt
    gap := fun j h1 h2 => (Nat.lt_or_eq_of_le (Nat.le_of_lt_succ h2)).elim (h.gap j h1) fun he => he ▸ hn }

/-- The units between the latest packet kept and position `n` have lost their last packets. -/
theorem Caught.emitted_upTo (hu : Streamable units) {x : Place p units i} {r : Assembler × List AccessUnit}
    (h : Caught keep pools first x n r) {m : Nat} (hm : (x.number + if x.draft.marker then 1 else 0) ≤ m)
    (hmn : p.position units m ≤ n) :
    r.2 = (units.take m).zipIdx.filterMap (p.emission units keep pools first) := by
  rw [h.emitted]
  symm
  refine gather_skip m hm fun w u hw hw' hwu => ?_
  have hdrafts := length_drafts_pos (p := p) hu (List.mem_of_getElem? hwu)
  have hsucc := position_succ (p := p) hwu
  have hstop : p.position units (w + 1) ≤ n := Nat.le_trans (position_mono hw') hmn
  refine emission_of_lost (by omega) (h.gap _ ?_ (by omega))
  cases hx : x.draft.marker with
  | false =>
    rw [hx, if_neg Bool.false_ne_true] at hw
    have hend := x.marker_eq_false_iff.1 hx
    have : p.position units (x.number + 1) ≤ p.position units (w + 1) := position_mono (Nat.succ_le_succ hw)
    omega
  | true =>
    rw [hx, if_pos rfl] at hw
    have hend := x.marker_iff.1 hx
    have : p.position units (x.number + 1) ≤ p.position units w := position_mono hw
    omega

/-- No packet has been kept of the units between the latest packet kept and position `n`. -/
theorem Caught.touched_upTo {x : Place p units i} {r : Assembler × List AccessUnit}
    (h : Caught keep pools first x n r) {m : Nat} (hm : x.number < m) (hmn : p.position units m ≤ n) :
    p.touched units keep m = p.touched units keep (x.number + 1) :=
  touched_skip hm fun j hj hj' => h.gap j (Nat.lt_of_lt_of_le x.lt_position hj) (Nat.lt_of_lt_of_le hj' hmn)

/-- **From one packet kept to the next.** -/
theorem Caught.next (hu : Streamable units) (hc : p.cipher.IsSound) {x : Place p units i} {y : Place p units k}
    {r : Assembler × List AccessUnit} (h : Caught keep pools first x k r) (hk : keep k = true) (hle : k ≤ i + 65536)
    (hy : y.Carries packet) (hp : Rtp.Packet.parse datagram = .ok packet) :
    Caught keep pools first y (k + 1) (Assembler.hand r (pools k, datagram)) := by
  obtain ⟨older, hfollows⟩ := h.follows
  have hpool := hfollows.withPool (pools k)
  have hheard := (Assembler.heard_of_sound hc hpool.cipher hy _).trans
    (Place.remembered_next (x := x) (y := y) h.first_le h.lt h.latest hk h.gap)
  obtain ⟨older', hfollows', ha⟩ := hpool.process hu.distinct h.lt hle hy hheard
  have hhand := Assembler.hand_of_parse (r := r) (d := (pools k, datagram)) hp ha.outcome
  rw [hhand]
  refine caught_of_accounted (Nat.le_trans h.first_le (Nat.le_of_lt h.lt)) hk hfollows' ha rfl ?_ fun hroom => ?_
  · refine h.emitted_upTo hu ?_ y.position_le
    rcases x.later_cases y h.lt with hn | ⟨hn, hm⟩
    · split <;> omega
    · rw [hm, hn]
      exact Nat.le_refl _
  · obtain ⟨h1, h2⟩ := h.accounts hroom
    refine ⟨h1, (congrArg (· + _) h2).trans ?_⟩
    rcases x.later_cases y h.lt with hn | ⟨hn, -⟩
    · rw [length_touched_place y hk, h.touched_upTo hn y.position_le, if_pos (decide_eq_true (Nat.ne_of_lt hn))]
    · simp [hn]

/-! ## Whole streams -/

def HasShortGaps (p : Packetizer) (units : List AccessUnit) (keep : Nat → Bool) : Prop :=
  ∀ i, i + 65536 ≤ (p.packetsOf units).length → ∃ j, i ≤ j ∧ j < i + 65536 ∧ keep j = true

/-- **Along the stream** an assembler that is fed the packets kept is caught at the latest of them. -/
theorem caught_feed (pools : Nat → Pool) (hu : Streamable units) (hc : p.cipher.IsSound) (pool : Pool) (limit : Nat)
    (hgaps : p.HasShortGaps units keep) (hk : keep first = true) (hbefore : ∀ j, j < first → keep j = false) :
    ∀ n, first < n → n ≤ p.span units → ∃ i, ∃ x : Place p units i, Caught keep pools first x n
      ((Assembler.create p.cipher pool limit).feed
        (((p.packetsOf units).take n).zipIdx.filterMap fun e => if keep e.2 then some (pools e.2, e.1) else none))
  | n + 1, hf, hn => by
    obtain ⟨y⟩ : Nonempty (Place p units n) := Place.exist hn
    obtain ⟨datagram, hd⟩ := issued_of_sound hc y
    obtain ⟨packet, hp, hy⟩ := y.parse hd
    have hsent : (p.packetsOf units)[n]? = some datagram := by
      have := getElem?_packetsOf hc units n
      rw [hd] at this
      simpa using this
    rw [gather_add_one hsent, Assembler.feed, List.foldl_append, ← Assembler.feed]
    rcases Nat.lt_or_eq_of_le (Nat.le_of_lt_succ hf) with hlt | rfl
    · obtain ⟨i, x, h⟩ := caught_feed pools hu hc pool limit hgaps hk hbefore n hlt (Nat.le_of_succ_le hn)
      cases hkeep : keep n with
      | false => exact ⟨i, x, h.skip hkeep⟩
      | true =>
        have hle : n ≤ i + 65536 := by
          rcases Nat.lt_or_ge (i + 65536) n with hfar | hle
          · obtain ⟨j, h1, h2, h3⟩ := hgaps (i + 1) (by rw [length_packetsOf hc]; omega)
            rw [h.gap j h1 (by omega)] at h3
            cases h3
          · exact hle
        exact ⟨n, y, h.next hu hc hkeep hle hy hp⟩
    · have hnone : ((p.packetsOf units).take first).zipIdx.filterMap
          (fun e => if keep e.2 then some (pools e.2, e.1) else none) = [] :=
        gather_skip first (Nat.zero_le _) fun w d _ hw _ => by rw [hbefore w hw, if_neg Bool.false_ne_true]
      rw [hnone, hk]
      exact ⟨first, y, caught_first hu hc pool limit hk hbefore hy hp⟩

end Packetizer
end VideoTransport
