import Mathlib.Data.List.Dedup
import VideoTransport.Proofs.Intake
/-!
# Completeness — a receiver hands out everything that was sent

Every packet of a stream arrives, some perhaps more than once, and never do more packets wait behind a missing one than
the reorder buffer holds.  When the application gives every unit back at once, all units come out, in their order, and
no call fails (`Receiver.runDropping_complete`).  The invariant: the cursor is at the first packet missing, the packet
before it is the last one assembled, and nothing but the frame of its unit is in the making (`Complete`).
-/
namespace VideoTransport

open Serial (nth)

/-! ## Order of arrival -/

/-- The first position that has not arrived. -/
def firstMissing (arrived : List Nat) : Nat :=
  ((List.range (arrived.length + 1)).find? fun i => decide (i ∉ arrived)).getD 0

theorem firstMissing_eq {arrived : List Nat} {c : Nat} (hc : c ∉ arrived) (h : ∀ j, j < c → j ∈ arrived) :
    firstMissing arrived = c := by
  have hle : c ≤ arrived.length := by
    have hsub : List.range c ⊆ arrived := fun j hj => h j (List.mem_range.1 hj)
    have := List.nodup_range.length_le_of_subset hsub
    rwa [List.length_range] at this
  have hfind : (List.range (arrived.length + 1)).find? (fun i => decide (i ∉ arrived)) = some c := by
    rw [List.find?_range_eq_some]
    refine ⟨decide_eq_true hc, List.mem_range.2 (Nat.lt_succ_of_le hle), fun j hj => ?_⟩
    simp [h j hj]
  rw [firstMissing, hfind]
  rfl

/-- How many positions have arrived beyond the first one missing. -/
def beyondMissing (arrived : List Nat) : Nat := arrived.dedup.countP fun j => decide (firstMissing arrived < j)

/-- Whether positions arrive within half of the number circle around the first one missing, and never more than
`capacity` of them beyond it. -/
def arrivesWithin (capacity : Nat) (arrived : List Nat) : List Nat → Bool
  | [] => true
  | i :: rest =>
    decide (i < firstMissing arrived + 32768) && decide (firstMissing arrived < i + 32768) &&
      decide (beyondMissing (i :: arrived) ≤ capacity) && arrivesWithin capacity (i :: arrived) rest

/-! ## Giving units back -/

namespace Receiver

/-- Take a datagram and give back at once all units that it brings. -/
def receiveAndDrop (r : Receiver) (a : Arrival) : Received :=
  let got := r.processMedia a.datagram a.time
  { got with
    receiver :=
      got.receiver.withPool (got.returned.foldl (fun pool unit => (unit.release pool).2) got.receiver.pool) }

/-- What datagrams bring one after another when all units are given back at once. -/
def runDropping : Receiver → List Arrival → List Received
  | _, [] => []
  | r, a :: rest => r.receiveAndDrop a :: runDropping (r.receiveAndDrop a).receiver rest

end Receiver

namespace Packetizer

variable {p : Packetizer} {units : List AccessUnit} {i k : Nat}

/-! ## Assembling without a gap -/

/-- An assembler at place `x` that has missed nothing, when `returned` has come out so far. -/
structure Whole (a : Assembler) (x : Place p units i) (returned : List AccessUnit) : Prop where
  follows : Follows a x (x.soFar 0) []
  dropped : a.stats.dropped = 0
  returned : returned = (units.take (x.number + if x.draft.marker then 1 else 0)).map AccessUnit.delivered

/-- The unit that is due at a place when nothing has been missed. -/
theorem Place.due_soFar (hu : Streamable units) (y : Place p units k) :
    y.due (y.soFar 0) = if y.draft.marker then some y.unit.delivered else none := by
  cases hm : y.draft.marker with
  | false =>
    rw [due, hm]
    rfl
  | true => rw [y.due_whole hu hm, if_pos rfl]

theorem whole_of_accounted (hu : Streamable units) {y : Place p units k} {a b : Assembler} {older : List Frame}
    {begins : Bool} {outcome : Except Fault (Option AccessUnit)} {returned : List AccessUnit}
    (hf : Follows b y (y.soFar 0) older) (ha : Accounted a y (y.soFar 0) begins b outcome)
    (hframes : a.stats.dropped + a.pending + (if begins then 1 else 0) = 1)
    (hreturned : returned = (units.take y.number).map AccessUnit.delivered) :
    Whole b y (returned ++ (y.due (y.soFar 0)).toList) := by
  have hsum := ha.frames
  obtain ⟨used, hb⟩ := hf.frames
  have hpending : b.pending = older.length + if y.draft.marker then 0 else 1 := by
    rw [Assembler.pending, hb, List.length_append]
    cases y.draft.marker <;> rfl
  rw [hframes, hpending, Place.due_soFar hu] at hsum
  have hzero : b.stats.dropped = 0 ∧ older = [] := by
    rw [← List.length_eq_zero_iff]
    cases hm : y.draft.marker <;>
      simp only [hm, Bool.false_eq_true, if_true, if_false, Option.isSome_none, Option.isSome_some] at hsum <;> omega
  refine ⟨hzero.2 ▸ hf, hzero.1, ?_⟩
  rw [Place.due_soFar hu, hreturned]
  cases y.draft.marker with
  | false => simp
  | true => simp [List.take_add_one, y.unit_at]

theorem Whole.pending {a : Assembler} {x : Place p units i} {returned : List AccessUnit} (h : Whole a x returned) :
    a.pending = if x.draft.marker then 0 else 1 := by
  obtain ⟨used, ha⟩ := h.follows.frames
  rw [Assembler.pending, ha]
  cases x.draft.marker <;> rfl

/-- **From one packet to the next** nothing is missed. -/
theorem Whole.next (hu : Streamable units) (hc : p.cipher.IsSound) {a : Assembler} {x : Place p units i}
    {y : Place p units (i + 1)} {returned : List AccessUnit} {packet : Rtp.Packet} (h : Whole a x returned)
    (hy : y.Carries packet) :
    ∃ due, (a.process packet).2 = a.pool.grant due ∧ Whole (a.process packet).1 y (returned ++ due.toList) ∧
      (a.process packet).1.pool = if (a.pool.granted due).isSome then a.pool.lend else a.pool := by
  have hheard := (Assembler.heard_of_sound hc h.follows.cipher hy _).trans (x.soFar_ongoing y)
  obtain ⟨older, hf, ha⟩ := h.follows.process hu.distinct (Nat.lt_succ_self i) (by omega) hy hheard
  refine ⟨_, ha.outcome, whole_of_accounted hu hf ha ?_ ?_, ha.pool⟩
  · rw [h.dropped, h.pending]
    rcases x.next_cases y with ⟨hn, -, hm⟩ | ⟨hn, -, hm⟩
    · simp [hm, hn]
    · simp [hm, Nat.ne_of_lt hn]
  · rw [h.returned]
    rcases x.next_cases y with ⟨hn, -, hm⟩ | ⟨hn, -, hm⟩
    · rw [hm, hn]
      rfl
    · rw [hm, if_pos rfl, Place.number_next hu hn hm]

/-- A batch that has brought its units, each in a buffer of the pool, and has led to place `y`. -/
structure Brings (batch : Receiver.Batch) (pool : Pool) (y : Place p units k) (returned : List AccessUnit) : Prop where
  whole : Whole batch.assembler y (returned ++ batch.completed)
  failure : batch.failure = none
  limit : batch.assembler.pool.limit = pool.limit
  outstanding : batch.assembler.pool.outstanding = pool.outstanding + batch.completed.length

/-- **The packets that leave the reorder buffer together** bring their units, if the pool has a buffer for each
packet. -/
theorem Whole.assemble (hu : Streamable units) (hc : p.cipher.IsSound) : ∀ (n : Nat) {i : Nat} {a : Assembler}
    {x : Place p units i} {returned : List AccessUnit}, Whole a x returned →
    (∀ j, i < j → j ≤ i + n → p.IsSent units j) → a.pool.outstanding + n ≤ a.pool.limit →
    ∃ k, ∃ y : Place p units k, k = i + n ∧
      Brings (Receiver.assemble a (p.packetsAt units (i + 1) n)) a.pool y returned
  | 0, i, a, x, returned, h, _, _ => by
    refine ⟨i, x, rfl, ?_, rfl, rfl, rfl⟩
    rw [show (Receiver.assemble a (p.packetsAt units (i + 1) 0)).completed = [] from rfl, List.append_nil]
    exact h
  | n + 1, i, a, x, returned, h, hsent, hroom => by
    have hnext : p.IsSent units (i + 1) := hsent (i + 1) (Nat.lt_succ_self i) (by omega)
    obtain ⟨y⟩ := hnext.place
    obtain ⟨due, houtcome, hwhole, hpool⟩ := h.next hu hc (hnext.carries y)
    rw [packetsAt_add_one, Receiver.assemble_cons, houtcome]
    have hsent' : ∀ j, i + 1 < j → j ≤ i + 1 + n → p.IsSent units j := fun j h1 h2 => hsent j (by omega) (by omega)
    have hfree : a.pool.HasRoom := show a.pool.outstanding < a.pool.limit by omega
    rw [Pool.granted_of_room hfree] at hpool
    cases due with
    | none =>
      have hsame : (a.process (p.packetAt units (i + 1))).1.pool = a.pool := hpool
      rw [Option.toList_none, List.append_nil] at hwhole
      obtain ⟨k, z, hk, hz⟩ := Whole.assemble hu hc n hwhole hsent' (by rw [hsame]; omega)
      rw [hsame] at hz
      exact ⟨k, z, by omega, hz⟩
    | some unit =>
      have hlent : (a.process (p.packetAt units (i + 1))).1.pool = a.pool.lend := hpool
      have hlimit : a.pool.lend.limit = a.pool.limit := rfl
      have hout : a.pool.lend.outstanding = a.pool.outstanding + 1 := rfl
      rw [Option.toList_some] at hwhole
      obtain ⟨k, z, hk, hz⟩ := Whole.assemble hu hc n hwhole hsent' (by rw [hlent, hlimit, hout]; omega)
      have hunits := hz.whole
      have hcount := hz.outstanding
      rw [List.append_assoc, List.singleton_append] at hunits
      rw [hlent, hout] at hcount
      simp only [Pool.grant, if_pos hfree]
      refine ⟨k, z, by omega, hunits, hz.failure, ?_, ?_⟩
      · rw [hz.limit, hlent, hlimit]
      · rw [hcount, List.length_cons]
        omega

/-! ## Receivers -/

/-- A receiver with the positions `arrived` behind it, of which `c` is the first one missing, when `returned` has come
out so far and been given back. -/
structure Complete (p : Packetizer) (units : List AccessUnit) (capacity : Nat) (r : Receiver) (arrived : List Nat)
    (c : Nat) (returned : List AccessUnit) : Prop where
  reorder : ∃ waiting, Reorder.Spans r.reorder p.nextSequence (p.packetAt units) c waiting ∧
    ∀ j, j ∈ waiting ↔ j ∈ arrived ∧ c ≤ j
  reorderCapacity : r.reorder.capacity = capacity
  before : ∀ j, j < c → j ∈ arrived
  sent : ∀ j ∈ arrived, p.IsSent units j
  assembler : ∃ i, ∃ x : Place p units i, i + 1 = c ∧ Whole r.assembler x returned
  outstanding : r.pool.outstanding = 0
  poolCapacity : capacity < r.pool.limit

variable {r : Receiver} {arrived : List Nat} {c capacity : Nat} {returned : List AccessUnit} {a : Arrival}

theorem Complete.not_mem (h : Complete p units capacity r arrived c returned) : c ∉ arrived := by
  obtain ⟨waiting, hspans, hmem⟩ := h.reorder
  intro hc
  exact absurd (hspans.ahead c ((hmem c).2 ⟨hc, Nat.le_refl c⟩)).1 (Nat.lt_irrefl c)

theorem Complete.firstMissing_eq (h : Complete p units capacity r arrived c returned) : firstMissing arrived = c :=
  VideoTransport.firstMissing_eq h.not_mem h.before

theorem Whole.withPool {b : Assembler} {x : Place p units i} (h : Whole b x returned) (pool : Pool) :
    Whole { b with pool } x returned := ⟨h.follows.withPool pool, h.dropped, h.returned⟩

/-- What has come out has not been given back yet. -/
theorem Whole.isReleased {b : Assembler} {x : Place p units i} {us : List AccessUnit}
    (h : Whole b x (returned ++ us)) : ∀ u ∈ us, u.isReleased = false := by
  intro u hu
  have hmem : u ∈ returned ++ us := List.mem_append_right returned hu
  rw [h.returned] at hmem
  obtain ⟨v, -, rfl⟩ := List.mem_map.1 hmem
  rfl

/-- A receiver whose assembler has taken in a batch and got all buffers back. -/
theorem receiveAndDrop_of_batch {ready : List Rtp.Packet} {packet : Rtp.Packet} {x : Place p units i}
    (hp : Rtp.Packet.parse a.datagram = .ok packet)
    (hready : (r.reorder.add packet.header.sequence packet).popReady.1 = ready) (hout : r.pool.outstanding = 0)
    (h : Brings (Receiver.assemble r.assembler ready) r.pool x returned) :
    (r.receiveAndDrop a).result = .ok (Receiver.assemble r.assembler ready).completed ∧
      (r.receiveAndDrop a).receiver.counters.framesDropped = 0 ∧
      (r.receiveAndDrop a).receiver.reorder = (r.reorder.add packet.header.sequence packet).popReady.2 ∧
      (r.receiveAndDrop a).receiver.pool.outstanding = 0 ∧
      (r.receiveAndDrop a).receiver.pool.limit = r.pool.limit ∧
      Whole (r.receiveAndDrop a).receiver.assembler x (returned ++ (r.receiveAndDrop a).returned) := by
  obtain ⟨-, hresult, hreorder, hdropped, hassembler⟩ := r.processMedia_of_parse a.time hp hready rfl
  simp only [h.failure] at hresult hassembler
  have hreturned : (r.receiveAndDrop a).returned = (Receiver.assemble r.assembler ready).completed := by
    show (r.processMedia a.datagram a.time).returned = _
    rw [Receiver.Received.returned, hresult]
  have hreceiver : (r.receiveAndDrop a).receiver = (r.processMedia a.datagram a.time).receiver.withPool
      ((Receiver.assemble r.assembler ready).completed.foldl (fun pool u => (u.release pool).2)
        (Receiver.assemble r.assembler ready).assembler.pool) := by
    rw [← hreturned, ← hassembler]
    rfl
  obtain ⟨hsame, hzero⟩ := AccessUnit.releaseAll_keeps (Receiver.assemble r.assembler ready).assembler.pool
    h.whole.isReleased
  refine ⟨hresult, ?_, ?_, ?_, ?_, ?_⟩
  · rw [hreceiver]
    exact hdropped.trans (by rw [h.whole.dropped]; rfl)
  · rw [hreceiver]
    exact hreorder
  · rw [hreceiver]
    exact hzero.trans (by rw [h.outstanding, hout, Nat.zero_add, Nat.sub_self])
  · rw [hreceiver]
    exact hsame.trans h.limit
  · rw [hreceiver, hreturned]
    have hdrop := h.whole.withPool ((Receiver.assemble r.assembler ready).completed.foldl
      (fun pool u => (u.release pool).2) (Receiver.assemble r.assembler ready).assembler.pool)
    rw [← hassembler] at hdrop ⊢
    exact hdrop

/-- Too many packets never wait, so none is forced out. -/
theorem Complete.has_room (h : Complete p units capacity r arrived c returned) {waiting : List Nat}
    (hspans : Reorder.Spans r.reorder p.nextSequence (p.packetAt units) c waiting)
    (hmem : ∀ j, j ∈ waiting ↔ j ∈ arrived ∧ c ≤ j) {k : Nat} (hcount : beyondMissing (k :: arrived) ≤ capacity)
    (hck : c < k) (hnew : k ∉ waiting) : waiting.length < capacity := by
  have hmissing : firstMissing (k :: arrived) = c := by
    refine VideoTransport.firstMissing_eq ?_ fun j hj => List.mem_cons_of_mem k (h.before j hj)
    rw [List.mem_cons, not_or]
    exact ⟨Nat.ne_of_lt hck, h.not_mem⟩
  have hsub : k :: waiting ⊆ (k :: arrived).dedup.filter fun j => decide (c < j) := by
    intro j hj
    rw [List.mem_filter, List.mem_dedup, decide_eq_true_eq]
    rcases List.mem_cons.1 hj with rfl | hj
    · exact ⟨List.mem_cons_self, hck⟩
    · exact ⟨List.mem_cons_of_mem k ((hmem j).1 hj).1, (hspans.ahead j hj).1⟩
  have hlen := (List.nodup_cons.2 ⟨hnew, hspans.nodup⟩).length_le_of_subset hsub
  rw [beyondMissing, hmissing, List.countP_eq_length_filter] at hcount
  exact Nat.lt_of_lt_of_le (Nat.lt_of_succ_le hlen) hcount

/-- **One arrival** brings all units up to the first packet missing. -/
theorem Complete.next (hu : Streamable units) (hc : p.cipher.IsSound)
    (h : Complete p units capacity r arrived c returned)
    (hsent : (p.issued units)[a.position]? = some (some a.datagram)) (hlt : a.position < c + 32768)
    (hgt : c < a.position + 32768) (hcount : beyondMissing (a.position :: arrived) ≤ capacity) :
    ∃ c', Complete p units capacity (r.receiveAndDrop a).receiver (a.position :: arrived) c'
        (returned ++ (r.receiveAndDrop a).returned) ∧
      (∃ us, (r.receiveAndDrop a).result = .ok us) ∧ (r.receiveAndDrop a).receiver.counters.framesDropped = 0 := by
  obtain ⟨waiting, hspans, hmem⟩ := h.reorder
  have hposition : p.IsSent units a.position := ⟨a.datagram, hsent⟩
  obtain ⟨y⟩ := hposition.place
  obtain ⟨hparse, hcarries⟩ := y.parse_packetAt hsent
  obtain ⟨m, n, c', rest, ha, hm, hitems, hspans', hcap⟩ := hspans.arrive hlt hgt
  obtain rfl : m = c := by
    rcases hm with hm | ⟨hck, hnew, hfull⟩
    · exact hm
    · have := h.has_room hspans hmem hcount hck hnew
      rw [h.reorderCapacity] at hfull
      omega
  obtain rfl := ha.cursor_eq
  have hrange : ∀ j, m ≤ j → j < m + n → j ∈ a.position :: arrived := by
    intro j h1 h2
    rcases ha.released j h1 h2 with hj | rfl
    · exact List.mem_cons_of_mem _ ((hmem j).1 hj).1
    · exact List.mem_cons_self
  have hall : ∀ j ∈ a.position :: arrived, p.IsSent units j := by
    intro j hj
    rcases List.mem_cons.1 hj with rfl | hj
    · exact hposition
    · exact h.sent j hj
  obtain ⟨i, x, rfl, hwhole⟩ := h.assembler
  have hfits := hspans.fits
  have hpool := h.poolCapacity
  rw [h.reorderCapacity] at hfits
  have hout : r.assembler.pool.outstanding = 0 := h.outstanding
  have hroom : r.assembler.pool.outstanding + n ≤ r.assembler.pool.limit := by
    have hn := ha.length_le
    have hlimit : r.assembler.pool.limit = r.pool.limit := rfl
    omega
  obtain ⟨k, z, hk, hz⟩ := hwhole.assemble hu hc n (fun j h1 h2 => hall j (hrange j h1 (by omega))) hroom
  rw [← hcarries.sequence] at hitems hspans' hcap
  obtain ⟨hresult, hdropped, hreorder, hzero, hsame, hassembler⟩ := receiveAndDrop_of_batch hparse hitems hout hz
  refine ⟨i + 1 + n, ⟨⟨rest, hreorder ▸ hspans', fun j => ?_⟩, ?_, fun j hj => ?_, hall, ⟨k, z, by omega, hassembler⟩,
    hzero, hsame ▸ hpool⟩, ⟨_, hresult⟩, hdropped⟩
  · rw [ha.mem_rest, hmem, List.mem_cons]
    constructor
    · rintro ⟨⟨hj, -⟩ | hj, hle⟩
      · exact ⟨.inr hj, hle⟩
      · exact ⟨.inl hj, hle⟩
    · rintro ⟨hj | hj, hle⟩
      · exact ⟨.inr hj, hle⟩
      · exact ⟨.inl ⟨hj, by omega⟩, hle⟩
  · rw [hreorder, hcap, h.reorderCapacity]
  · rcases Nat.lt_or_ge j (i + 1) with hlt | hge
    · exact List.mem_cons_of_mem _ (h.before j hlt)
    · exact hrange j hge hj

theorem Place.number_eq_zero (hu : Streamable units) (y : Place p units 0) : y.number = 0 := by
  rcases Nat.eq_zero_or_pos y.number with hz | hpos
  · exact hz
  · obtain ⟨u, hget⟩ : ∃ u, units[0]? = some u := ⟨_, List.getElem?_eq_getElem (Nat.lt_trans hpos y.number_lt)⟩
    have hlt : p.position units 0 < p.position units 1 := position_lt_succ hu hget
    have hle : p.position units 1 ≤ p.position units y.number := position_mono hpos
    exact absurd (Nat.lt_of_lt_of_le hlt (Nat.le_trans hle y.position_le)) (Nat.lt_irrefl 0)

/-- The first packet of a stream reaches a new receiver. -/
theorem complete_first (hu : Streamable units) (hc : p.cipher.IsSound) {settings : ReceiverSettings}
    (hr : Receiver.create settings p.cipher = .ok r) (hpool : settings.reorderCapacity < settings.poolCapacity)
    (hsent : (p.issued units)[0]? = some (some a.datagram)) :
    Complete p units settings.reorderCapacity (r.receiveAndDrop a).receiver [0] 1 (r.receiveAndDrop a).returned ∧
      (∃ us, (r.receiveAndDrop a).result = .ok us) ∧ (r.receiveAndDrop a).receiver.counters.framesDropped = 0 := by
  obtain ⟨hvalid, hreorder₀, hassembler₀, -⟩ := Receiver.create_eq_ok hr
  obtain ⟨y⟩ : Nonempty (Place p units 0) := IsSent.place ⟨a.datagram, hsent⟩
  obtain ⟨hparse, hcarries⟩ := y.parse_packetAt hsent
  have hcapacity : max settings.reorderCapacity 1 = settings.reorderCapacity := by
    have hne : settings.reorderCapacity ≠ 0 := by
      intro hz
      rw [ReceiverSettings.fault?, if_pos (.inl hz)] at hvalid
      cases hvalid
    omega
  obtain ⟨hitems, hspans, hcap⟩ := Reorder.spans_first p.nextSequence (p.packetAt units) settings.reorderCapacity 0
  rw [hcapacity] at hcap
  rw [← hcarries.sequence, ← hreorder₀] at hitems hspans hcap
  have hlimit : r.assembler.pool.limit = settings.poolCapacity := by rw [hassembler₀]; rfl
  have hout : r.assembler.pool.outstanding = 0 := by rw [hassembler₀]; rfl
  have hroom : r.assembler.pool.HasRoom := show r.assembler.pool.outstanding < r.assembler.pool.limit by omega
  have hheard : r.assembler.heard (p.packetAt units 0) (.intact [] none) = y.soFar 0 :=
    (Assembler.heard_of_sound hc (congrArg Assembler.cipher hassembler₀) hcarries _).trans
      (Place.soFar_zero (y.index_eq_zero position_zero.symm)).symm
  obtain ⟨older, hfollows, haccounted⟩ := follows_first hu.distinct hcarries hassembler₀
  rw [hheard] at hfollows haccounted
  have hnone : r.assembler.stats.dropped + r.assembler.pending + 1 = 1 := by rw [hassembler₀]; rfl
  obtain ⟨hbatch, hcompleted, hfailure⟩ := Receiver.assemble_singleton haccounted.outcome
  have hpool' := haccounted.pool
  rw [Pool.granted_of_room hroom] at hcompleted hpool'
  have hbrings : Brings (Receiver.assemble r.assembler [p.packetAt units 0]) r.pool y [] := by
    refine ⟨?_, hfailure hroom, ?_, ?_⟩
    · rw [hbatch, hcompleted]
      exact whole_of_accounted hu hfollows haccounted hnone (by rw [y.number_eq_zero hu]; rfl)
    · rw [hbatch, hpool']
      cases y.due (y.soFar 0) <;> rfl
    · rw [hbatch, hcompleted, hpool']
      cases y.due (y.soFar 0) <;> rfl
  obtain ⟨hresult, hdropped, hreorder, hzero, hsame, hassembler⟩ := receiveAndDrop_of_batch hparse hitems hout hbrings
  refine ⟨⟨⟨[], hreorder ▸ hspans, fun j => ?_⟩, ?_, fun j hj => ?_, fun j hj => ?_, ⟨0, y, rfl, hassembler⟩, hzero,
    ?_⟩, ⟨_, hresult⟩, hdropped⟩
  · simp only [List.not_mem_nil, List.mem_singleton, false_iff]
    omega
  · rw [hreorder, hcap]
  · exact List.mem_singleton.2 (Nat.lt_one_iff.1 hj)
  · exact List.mem_singleton.1 hj ▸ ⟨a.datagram, hsent⟩
  · rw [hsame]
    exact Nat.lt_of_lt_of_eq hpool hlimit.symm

/-! ## Runs -/

/-- **Over a run** no call fails, and all units come out up to the first packet missing. -/
theorem Complete.run (hu : Streamable units) (hc : p.cipher.IsSound) : ∀ {arrivals : List Arrival} {r : Receiver}
    {arrived : List Nat} {c : Nat} {returned : List AccessUnit}, Complete p units capacity r arrived c returned →
    (∀ a ∈ arrivals, (p.issued units)[a.position]? = some (some a.datagram)) →
    arrivesWithin capacity arrived (arrivals.map (·.position)) = true →
    (∀ got ∈ r.runDropping arrivals, (∃ us, got.result = .ok us) ∧ got.receiver.counters.framesDropped = 0) ∧
      ∃ r' arrived' c', Complete p units capacity r' arrived' c'
          (returned ++ (r.runDropping arrivals).flatMap Receiver.Received.returned) ∧
        (∀ j ∈ arrived, j ∈ arrived') ∧ ∀ a ∈ arrivals, a.position ∈ arrived'
  | [], r, arrived, c, returned, h, _, _ => by
    refine ⟨fun got hgot => absurd hgot List.not_mem_nil, r, arrived, c, ?_, fun j hj => hj,
      fun a ha => absurd ha List.not_mem_nil⟩
    rw [Receiver.runDropping, List.flatMap_nil, List.append_nil]
    exact h
  | a :: rest, r, arrived, c, returned, h, hsent, hwithin => by
    rw [List.map_cons, arrivesWithin, h.firstMissing_eq] at hwithin
    simp only [Bool.and_eq_true, decide_eq_true_eq] at hwithin
    obtain ⟨⟨⟨hlt, hgt⟩, hcount⟩, hrest⟩ := hwithin
    obtain ⟨c', h', hok⟩ := h.next hu hc (hsent a List.mem_cons_self) hlt hgt hcount
    obtain ⟨hall, r', arrived', c'', hlast, hold, hnew⟩ :=
      Complete.run hu hc h' (fun b hb => hsent b (List.mem_cons_of_mem a hb)) hrest
    refine ⟨fun got hgot => ?_, r', arrived', c'', ?_, fun j hj => hold j (List.mem_cons_of_mem _ hj), fun b hb => ?_⟩
    · rcases List.mem_cons.1 hgot with rfl | hgot
      · exact hok
      · exact hall got hgot
    · rw [Receiver.runDropping, List.flatMap_cons, ← List.append_assoc]
      exact hlast
    · rcases List.mem_cons.1 hb with rfl | hb
      · exact hold b.position List.mem_cons_self
      · exact hnew b hb

/-- When all packets have arrived, all units have come out. -/
theorem Complete.returned_eq (hu : Streamable units) (h : Complete p units capacity r arrived c returned)
    (hall : ∀ j, j < p.span units → j ∈ arrived) : returned = units.map AccessUnit.delivered := by
  obtain ⟨i, x, rfl, hwhole⟩ := h.assembler
  have hend : i + 1 = p.span units := by
    have hmissing : ¬ i + 1 < p.span units := fun hlt => h.not_mem (hall (i + 1) hlt)
    have := x.lt_span
    omega
  have hle : p.position units (x.number + 1) ≤ p.span units := position_le_span _
  have hlt := x.lt_position
  have hm : x.draft.marker = true := x.marker_iff.2 (by omega)
  have hlast : units.length ≤ x.number + 1 := by
    rcases Nat.lt_or_ge (x.number + 1) units.length with hmore | hlast
    · have hnext : p.position units (x.number + 1) < p.position units (x.number + 1 + 1) :=
        position_lt_succ hu (List.getElem?_eq_getElem hmore)
      have hle' : p.position units (x.number + 1 + 1) ≤ p.span units := position_le_span _
      omega
    · exact hlast
  rw [hwhole.returned, hm, if_pos rfl, List.take_of_length_le hlast]

end Packetizer

namespace Receiver

open Packetizer

/-- **A receiver hands out everything that was sent.**  All packets of a stream arrive, its first one first, in any
order in which no more of them than the reorder buffer holds are ever beyond the first one missing, and any of them more
than once.  Then no call fails, no frame is dropped, and all units are returned, each once and in their order. -/
theorem runDropping_complete {p : Packetizer} {units : List AccessUnit} (hu : Streamable units) (hc : p.cipher.IsSound)
    {settings : ReceiverSettings} {r : Receiver} (hr : create settings p.cipher = .ok r)
    (hpool : settings.reorderCapacity < settings.poolCapacity) {arrivals : List Arrival}
    (hsent : ∀ a ∈ arrivals, (p.packetsOf units)[a.position]? = some a.datagram)
    (hall : ∀ i, i < (p.packetsOf units).length → ∃ a ∈ arrivals, a.position = i)
    (hfirst : ∀ a ∈ arrivals.head?, a.position = 0)
    (hwithin : arrivesWithin settings.reorderCapacity [] (arrivals.map (·.position)) = true) :
    (∀ got ∈ r.runDropping arrivals, (∃ us, got.result = .ok us) ∧ got.receiver.counters.framesDropped = 0) ∧
      (r.runDropping arrivals).flatMap Received.returned = units.map AccessUnit.delivered := by
  rw [length_packetsOf hc] at hall
  have hissued : ∀ a ∈ arrivals, (p.issued units)[a.position]? = some (some a.datagram) := by
    intro a ha
    rw [← getElem?_packetsOf hc, hsent a ha, Option.map_some]
  cases arrivals with
  | nil =>
    refine ⟨fun got hgot => absurd hgot List.not_mem_nil, ?_⟩
    cases units with
    | nil => rfl
    | cons u rest =>
      have hlt : p.position (u :: rest) 0 < p.position (u :: rest) 1 := position_lt_succ hu rfl
      obtain ⟨a, ha, -⟩ := hall 0 (Nat.lt_of_lt_of_le hlt (position_le_span 1))
      cases ha
  | cons first rest =>
    have hzero : first.position = 0 := hfirst first rfl
    have hsentFirst := hissued first List.mem_cons_self
    rw [hzero] at hsentFirst
    obtain ⟨hstart, hok⟩ := complete_first hu hc hr hpool hsentFirst
    rw [List.map_cons, arrivesWithin, Bool.and_eq_true, hzero] at hwithin
    obtain ⟨hrest, r', arrived', c', hend, hold, hnew⟩ :=
      hstart.run hu hc (fun a ha => hissued a (List.mem_cons_of_mem first ha)) hwithin.2
    refine ⟨fun got hgot => ?_, ?_⟩
    · rcases List.mem_cons.1 hgot with rfl | hgot
      · exact hok
      · exact hrest got hgot
    · rw [runDropping, List.flatMap_cons]
      refine hend.returned_eq hu fun j hj => ?_
      obtain ⟨a, ha, rfl⟩ := hall j hj
      rcases List.mem_cons.1 ha with rfl | ha
      · exact hold _ (List.mem_singleton.2 hzero)
      · exact hnew a ha

/-- The packets of the sample arrive in disorder, and one of them twice. -/
theorem runDropping_complete_sample : ∃ r, create {} .identity = .ok r ∧
    (∀ got ∈ r.runDropping ([0, 3, 1, 1, 2].map sampleArrival),
      (∃ us, got.result = .ok us) ∧ got.receiver.counters.framesDropped = 0) ∧
    (r.runDropping ([0, 3, 1, 1, 2].map sampleArrival)).flatMap Received.returned =
      sample.map AccessUnit.delivered :=
  ⟨_, rfl, runDropping_complete (p := plain) streamable_sample Cipher.identity_isSound
    (show create {} plain.cipher = .ok _ from rfl) (by decide) (by rw [packetsOf_eq]; decide)
    (by rw [packetsOf_eq]; decide) (by decide) (by decide)⟩

end Receiver
end VideoTransport
