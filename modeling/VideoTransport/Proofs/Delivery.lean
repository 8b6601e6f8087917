import VideoTransport.Proofs.Intake
/-!
# Delivery — what a receiver hands out was sent

Datagrams of a stream reach a receiver with any loss, duplication and order, as long as they stay within half of the
number circle around its cursor, and the pool is whatever the application makes of it.  Every unit that comes out then
is a unit that was sent, whole, and units come out in their order and once (`Receiver.run_delivers`).  The invariant: an
assembler never goes back in the stream, and the frame in the making is broken or holds all packets of its unit so far
(`Safe`).
-/
namespace VideoTransport

open Serial (nth)

/-! ## Calls -/

/-- A datagram that arrives when the application has left the pool like this. -/
structure Call extends Arrival where
  pool : Pool

namespace Receiver

def call (r : Receiver) (c : Call) : Received := (r.withPool c.pool).processMedia c.datagram c.time

/-- What datagrams bring one after another. -/
def run : Receiver → List Call → List Received
  | _, [] => []
  | r, c :: rest => r.call c :: run (r.call c).receiver rest

/-- The position of the cursor, which never moves back or by a whole turn. -/
def cursorFrom (r : Receiver) (start : Serial) (cursor : Nat) : Nat :=
  match r.reorder.cursor with
  | none => cursor
  | some s => Serial.locate start cursor s

/-- Whether every datagram is within half of the circle around the position of the cursor when it arrives. -/
def staysNear (start : Serial) : Receiver → Nat → List Call → Bool
  | _, _, [] => true
  | r, cursor, c :: rest =>
    decide (c.position < cursor + 32768) && decide (cursor < c.position + 32768) &&
      staysNear start (r.call c).receiver ((r.call c).receiver.cursorFrom start cursor) rest

/-- The same for a new receiver, whose cursor the first datagram sets. -/
def staysNearFirst (start : Serial) (r : Receiver) (calls : List Call) : Bool :=
  calls.head?.all fun first => r.staysNear start first.position calls

end Receiver

namespace Packetizer

variable {p : Packetizer} {units : List AccessUnit} {i k : Nat}

/-! ## Safe frames -/

/-- A frame that is broken or holds all packets of its unit so far. -/
def Place.IsSafe (x : Place p units i) (content : FrameContent) : Prop := content = .broken ∨ content = x.soFar 0

theorem Place.isSafe_next (hc : p.cipher.IsHonest) {x : Place p units i} {y : Place p units k} {content : FrameContent}
    {a : Assembler} {packet : Rtp.Packet} (h : x.IsSafe content) (ha : a.cipher = p.cipher) (hy : y.Carries packet) :
    y.IsSafe (a.heard packet (x.ongoing y content)) := by
  rcases Assembler.heard_of_honest hc ha hy (x.ongoing y content) with hh | hh
  · rw [hh, ongoing]
    by_cases hk : k = i + 1
    · subst hk
      rw [if_pos rfl]
      rcases x.next_cases y with ⟨hn, hj, -⟩ | ⟨hn, hj, -⟩
      · rw [if_pos hn]
        rcases h with rfl | rfl
        · exact .inl (FrameContent.hear_broken _)
        · exact .inr (soFar_next hn hj (Nat.zero_le _)).symm
      · rw [if_neg (Nat.ne_of_lt hn)]
        exact .inr (soFar_zero hj).symm
    · rw [if_neg hk]
      exact .inl (FrameContent.hear_broken _)
  · exact .inl hh

/-- Of a safe frame comes the whole unit or nothing. -/
theorem Place.due_of_isSafe (hu : Streamable units) {x : Place p units i} {content : FrameContent}
    (h : x.IsSafe content) :
    x.due content = none ∨ x.draft.marker = true ∧ x.due content = some x.unit.delivered := by
  cases hm : x.draft.marker with
  | false => exact .inl (by rw [due, hm, if_neg Bool.false_ne_true])
  | true =>
    rcases h with rfl | rfl
    · exact .inl (by rw [due, FrameContent.unit?_broken, ite_self])
    · exact .inr ⟨rfl, x.due_whole hu hm⟩

/-- An assembler at place `x` whose frame is safe, when `shown` has come out so far. -/
structure Safe (a : Assembler) (x : Place p units i) (shown : List AccessUnit) : Prop where
  follows : ∃ content older, Follows a x content older ∧ x.IsSafe content
  shown : shown.Sublist ((units.take (x.number + if x.draft.marker then 1 else 0)).map AccessUnit.delivered)

theorem safe_of_accounted (hu : Streamable units) {y : Place p units k} {a b : Assembler} {content : FrameContent}
    {older : List Frame} {begins : Bool} {outcome : Except Fault (Option AccessUnit)} {shown : List AccessUnit}
    (hf : Follows b y content older) (ha : Accounted a y content begins b outcome) (hs : y.IsSafe content)
    (hshown : shown.Sublist ((units.take y.number).map AccessUnit.delivered)) :
    outcome = a.pool.grant (y.due content) ∧ Safe b y (shown ++ (a.pool.granted (y.due content)).toList) := by
  refine ⟨ha.outcome, ⟨content, older, hf, hs⟩, ?_⟩
  rcases Place.due_of_isSafe hu hs with hd | ⟨hm, hd⟩
  · rw [hd, Pool.granted_none, Option.toList_none, List.append_nil]
    exact hshown.trans ((List.take_sublist_take_left (Nat.le_add_right _ _)).map _)
  · rw [hd, hm, if_pos rfl, List.take_add_one, y.unit_at, List.map_append]
    refine hshown.append ?_
    unfold Pool.granted
    split
    · exact List.Sublist.refl _
    · exact List.nil_sublist _

theorem Safe.withPool {a : Assembler} {x : Place p units i} {shown : List AccessUnit} (h : Safe a x shown)
    (pool : Pool) : Safe { a with pool } x shown := by
  obtain ⟨content, older, hf, hs⟩ := h.follows
  exact ⟨⟨content, older, hf.withPool pool, hs⟩, h.shown⟩

/-- **From place to place** a frame stays safe, and what comes out stays in order. -/
theorem Safe.next (hu : Streamable units) (hc : p.cipher.IsHonest) {a : Assembler} {x : Place p units i}
    {y : Place p units k} {shown : List AccessUnit} {packet : Rtp.Packet} (h : Safe a x shown) (hlt : i < k)
    (hle : k ≤ i + 65536) (hy : y.Carries packet) :
    ∃ due, (a.process packet).2 = a.pool.grant due ∧
      Safe (a.process packet).1 y (shown ++ (a.pool.granted due).toList) := by
  obtain ⟨content, older, hf, hs⟩ := h.follows
  obtain ⟨older', hf', ha⟩ := hf.process hu.distinct hlt hle hy rfl
  refine ⟨_, safe_of_accounted hu hf' ha (Place.isSafe_next hc hs hf.cipher hy) ?_⟩
  have hle : (x.number + if x.draft.marker then 1 else 0) ≤ y.number := by
    rcases x.later_cases y hlt with hn | ⟨hn, hm⟩
    · split <;> omega
    · rw [hm, hn]
      exact Nat.le_refl _
  exact h.shown.trans ((List.take_sublist_take_left hle).map _)

/-- **The packets that leave the reorder buffer together** keep an assembler safe, even when one finds no buffer. -/
theorem Safe.assemble (hu : Streamable units) (hc : p.cipher.IsHonest) : ∀ (n : Nat) {m i : Nat} {a : Assembler}
    {x : Place p units i} {shown : List AccessUnit}, Safe a x shown → i < m → m ≤ i + 65536 →
    (∀ j, m ≤ j → j < m + n → p.IsSent units j) →
    ∃ k, ∃ y : Place p units k,
      Safe (Receiver.assemble a (p.packetsAt units m n)).assembler y
        (shown ++ (Receiver.assemble a (p.packetsAt units m n)).completed) ∧
      (n = 0 ∧ k = i ∨ m ≤ k ∧ k < m + n)
  | 0, m, i, a, x, shown, h, _, _, _ => by
    refine ⟨i, x, ?_, .inl ⟨rfl, rfl⟩⟩
    rw [show (Receiver.assemble a (p.packetsAt units m 0)).completed = [] from rfl, List.append_nil]
    exact h
  | n + 1, m, i, a, x, shown, h, hlt, hle, hsent => by
    have hm : p.IsSent units m := hsent m (Nat.le_refl m) (by omega)
    obtain ⟨y⟩ := hm.place
    obtain ⟨due, houtcome, hsafe⟩ := h.next hu hc hlt hle (hm.carries y)
    rw [packetsAt_add_one, Receiver.assemble_cons, houtcome]
    have hsent' : ∀ j, m + 1 ≤ j → j < m + 1 + n → p.IsSent units j := fun j h1 h2 => hsent j (by omega) (by omega)
    cases due with
    | none =>
      rw [Pool.granted_none, Option.toList_none, List.append_nil] at hsafe
      obtain ⟨k, z, hz, hk⟩ := Safe.assemble hu hc n hsafe (Nat.lt_succ_self m) (by omega) hsent'
      exact ⟨k, z, hz, .inr (by omega)⟩
    | some unit =>
      by_cases hroom : a.pool.HasRoom
      · rw [Pool.granted_of_room hroom, Option.toList_some] at hsafe
        obtain ⟨k, z, hz, hk⟩ := Safe.assemble hu hc n hsafe (Nat.lt_succ_self m) (by omega) hsent'
        rw [List.append_assoc, List.singleton_append] at hz
        simp only [Pool.grant, if_pos hroom]
        exact ⟨k, z, hz, .inr (by omega)⟩
      · -- The packets behind this one are given up.
        rw [Pool.granted_of_full hroom] at hsafe
        simp only [Pool.grant, if_neg hroom]
        exact ⟨m, y, hsafe, .inr ⟨Nat.le_refl m, by omega⟩⟩

/-! ## Receivers -/

/-- A receiver whose cursor is at position `c`, when `shown` has come out so far. -/
structure Tracks (p : Packetizer) (units : List AccessUnit) (r : Receiver) (c : Nat) (shown : List AccessUnit) :
    Prop where
  reorder : ∃ waiting, Reorder.Spans r.reorder p.nextSequence (p.packetAt units) c waiting ∧
    ∀ j ∈ waiting, p.IsSent units j
  assembler : ∃ i, ∃ x : Place p units i, Safe r.assembler x shown ∧ i < c ∧ c ≤ i + 32768

variable {r : Receiver} {c : Nat} {shown : List AccessUnit} {call : Call}

theorem Tracks.cursorFrom_eq {c' : Nat} (h : Tracks p units r c' shown) (hle : c ≤ c') (hlt : c' < c + 65536) :
    r.cursorFrom p.nextSequence c = c' := by
  obtain ⟨waiting, hspans, -⟩ := h.reorder
  rw [Receiver.cursorFrom, hspans.cursor]
  exact Serial.locate_nth _ hle hlt

/-- **One datagram** moves the cursor on, and what comes out stays in order. -/
theorem Tracks.next (hu : Streamable units) (hc : p.cipher.IsHonest) (h : Tracks p units r c shown)
    (hsent : (p.issued units)[call.position]? = some (some call.datagram)) (hlt : call.position < c + 32768)
    (hgt : c < call.position + 32768) :
    ∃ c', Tracks p units (r.call call).receiver c' (shown ++ (r.call call).shown) ∧ c ≤ c' ∧ c' ≤ c + 32768 := by
  obtain ⟨waiting, hspans, hwaiting⟩ := h.reorder
  obtain ⟨i, x, hsafe, hic, hci⟩ := h.assembler
  have hposition : p.IsSent units call.position := ⟨call.datagram, hsent⟩
  obtain ⟨y⟩ := hposition.place
  obtain ⟨hparse, hcarries⟩ := y.parse_packetAt hsent
  obtain ⟨m, n, c', rest, ha, -, hitems, hspans', -⟩ := hspans.arrive hlt hgt
  have hcursor := hspans.cursor_le ha hlt
  have hrange : ∀ j, m ≤ j → j < m + n → p.IsSent units j := by
    intro j h1 h2
    rcases ha.released j h1 h2 with hj | rfl
    · exact hwaiting j hj
    · exact hposition
  have hbatch : ∃ k, ∃ z : Place p units k,
      Safe (Receiver.assemble (r.withPool call.pool).assembler (p.packetsAt units m n)).assembler z
        (shown ++ (Receiver.assemble (r.withPool call.pool).assembler (p.packetsAt units m n)).completed) ∧
      k < c' ∧ c' ≤ k + 32768 := by
    rcases ha.cursor with ⟨rfl, rfl⟩ | ⟨hpos, hcm, rfl⟩
    · refine ⟨i, x, ?_, hic, hci⟩
      rw [show (Receiver.assemble _ (p.packetsAt units m 0)).completed = [] from rfl, List.append_nil]
      exact hsafe.withPool call.pool
    · obtain ⟨k, z, hz, hk⟩ :=
        (hsafe.withPool call.pool).assemble hu hc n (show i < m by omega) (by omega) hrange
      exact ⟨k, z, hz, by omega, by omega⟩
  obtain ⟨k, z, hz, hkc, hck⟩ := hbatch
  rw [← hcarries.sequence] at hitems hspans'
  obtain ⟨hshown, -, hreorder, -, hassembler⟩ :=
    Receiver.processMedia_of_parse (r.withPool call.pool) call.time hparse hitems rfl
  refine ⟨c', ⟨⟨rest, ?_, fun j hj => ?_⟩, k, z, ?_, hkc, hck⟩, hcursor⟩
  · rw [Receiver.call, hreorder]
    exact hspans'
  · rcases ((ha.mem_rest j).1 hj).1 with hj | rfl
    · exact hwaiting j hj
    · exact hposition
  · rw [Receiver.call, hassembler, hshown]
    split
    · exact hz
    · exact hz.withPool _

/-- A new receiver tracks the stream from the first packet of a unit on. -/
theorem Tracks.first (hu : Streamable units) (hc : p.cipher.IsHonest) {settings : ReceiverSettings}
    (hr : Receiver.create settings p.cipher = .ok r)
    (hsent : (p.issued units)[call.position]? = some (some call.datagram)) {y : Place p units call.position}
    (hy : y.index = 0) : Tracks p units (r.call call).receiver (call.position + 1) (r.call call).shown := by
  obtain ⟨-, hreorder₀, hassembler₀, -⟩ := Receiver.create_eq_ok hr
  obtain ⟨hparse, hcarries⟩ := y.parse_packetAt hsent
  obtain ⟨hitems, hspans, -⟩ :=
    Reorder.spans_first p.nextSequence (p.packetAt units) settings.reorderCapacity call.position
  have hnew : (r.withPool call.pool).assembler = Assembler.create p.cipher call.pool settings.maxAssemblies :=
    congrArg (fun a : Assembler => { a with pool := call.pool }) hassembler₀
  obtain ⟨older, hfollows, haccounted⟩ := follows_first hu.distinct hcarries hnew
  have hsafe :
      y.IsSafe ((r.withPool call.pool).assembler.heard (p.packetAt units call.position) (.intact [] none)) := by
    rcases Assembler.heard_of_honest hc (congrArg Assembler.cipher hnew) hcarries (.intact [] none) with hh | hh
    · exact .inr (hh.trans (Place.soFar_zero hy).symm)
    · exact .inl hh
  obtain ⟨houtcome, hland⟩ := safe_of_accounted hu hfollows haccounted hsafe (List.nil_sublist _)
  obtain ⟨hbatch, hcompleted, -⟩ := Receiver.assemble_singleton houtcome
  rw [← hcarries.sequence, ← hreorder₀] at hitems hspans
  obtain ⟨hshown, -, hreorder, -, hassembler⟩ :=
    Receiver.processMedia_of_parse (r.withPool call.pool) call.time hparse hitems rfl
  refine ⟨⟨[], ?_, fun j hj => absurd hj List.not_mem_nil⟩, call.position, y, ?_, Nat.lt_succ_self _, by omega⟩
  · rw [Receiver.call, hreorder]
    exact hspans
  · rw [Receiver.call, hassembler, hshown, hcompleted]
    rw [List.nil_append, ← hbatch] at hland
    split
    · exact hland
    · exact hland.withPool _

theorem Tracks.sublist (h : Tracks p units r c shown) : shown.Sublist (units.map AccessUnit.delivered) := by
  obtain ⟨i, x, hs, -⟩ := h.assembler
  exact hs.shown.trans ((List.take_sublist _ _).map _)

/-- **Over a run** the units shown are among those sent, in order and once. -/
theorem Tracks.run (hu : Streamable units) (hc : p.cipher.IsHonest) : ∀ {calls : List Call} {r : Receiver} {c : Nat}
    {shown : List AccessUnit}, Tracks p units r c shown →
    (∀ call ∈ calls, (p.issued units)[call.position]? = some (some call.datagram)) →
    r.staysNear p.nextSequence c calls = true →
    (shown ++ (r.run calls).flatMap (·.shown)).Sublist (units.map AccessUnit.delivered)
  | [], r, c, shown, h, _, _ => by
    rw [Receiver.run, List.flatMap_nil, List.append_nil]
    exact h.sublist
  | call :: rest, r, c, shown, h, hsent, hnear => by
    rw [Receiver.staysNear, Bool.and_eq_true, Bool.and_eq_true, decide_eq_true_eq, decide_eq_true_eq] at hnear
    obtain ⟨⟨hlt, hgt⟩, hrest⟩ := hnear
    obtain ⟨c', h', hle, hle'⟩ := h.next hu hc (hsent call List.mem_cons_self) hlt hgt
    rw [h'.cursorFrom_eq hle (by omega)] at hrest
    rw [Receiver.run, List.flatMap_cons, ← List.append_assoc]
    exact Tracks.run hu hc h' (fun d hd => hsent d (List.mem_cons_of_mem call hd)) hrest

end Packetizer

namespace Receiver

open Packetizer

theorem returned_run_sublist : ∀ (calls : List Call) (r : Receiver),
    ((r.run calls).flatMap Received.returned).Sublist ((r.run calls).flatMap (·.shown))
  | [], _ => List.Sublist.refl _
  | call :: rest, r => by
    rw [run, List.flatMap_cons, List.flatMap_cons]
    exact (returned_sublist _ _ _).append (returned_run_sublist rest _)

/-- **A receiver hands out only what was sent.**  Whatever is lost, comes twice or in another order, and whatever
buffers are free: if the first datagram is the first packet of a unit, all units shown or returned are units that were
sent, with their bitstreams in normal form, their times and their key frame marks, each once and in their order. -/
theorem run_delivers {p : Packetizer} {units : List AccessUnit} (hu : Streamable units) (hc : p.cipher.IsHonest)
    {settings : ReceiverSettings} {r : Receiver} (hr : create settings p.cipher = .ok r) {calls : List Call}
    (hsent : ∀ call ∈ calls, (p.issued units)[call.position]? = some (some call.datagram))
    (hfirst : ∀ first ∈ calls.head?, ∃ w, first.position = p.position units w)
    (hnear : r.staysNearFirst p.nextSequence calls = true) :
    ((r.run calls).flatMap (·.shown)).Sublist (units.map AccessUnit.delivered) ∧
      ((r.run calls).flatMap Received.returned).Sublist (units.map AccessUnit.delivered) := by
  suffices h : ((r.run calls).flatMap (·.shown)).Sublist (units.map AccessUnit.delivered) from
    ⟨h, (returned_run_sublist calls r).trans h⟩
  cases calls with
  | nil => exact List.nil_sublist _
  | cons first rest =>
    obtain ⟨w, hw⟩ := hfirst first rfl
    have hsentFirst := hsent first List.mem_cons_self
    obtain ⟨y⟩ : Nonempty (Place p units first.position) := IsSent.place ⟨first.datagram, hsentFirst⟩
    have htrack := Tracks.first hu hc hr hsentFirst (y.index_eq_zero hw)
    rw [staysNearFirst, List.head?_cons, Option.all_some, staysNear, Bool.and_eq_true,
      htrack.cursorFrom_eq (Nat.le_succ _) (by omega)] at hnear
    exact htrack.run hu hc (fun call hcall => hsent call (List.mem_cons_of_mem first hcall)) hnear.2

/-- The call that a packet of the sample stream makes. -/
def sampleCall (i : Nat) : Call := ⟨sampleArrival i, { limit := 4 }⟩

/-- The packets of the sample arrive in disorder, and one of them twice. -/
theorem run_delivers_sample : ∃ r, create {} .identity = .ok r ∧
    ((r.run ([0, 3, 1, 1, 2].map sampleCall)).flatMap (·.shown)).Sublist (sample.map AccessUnit.delivered) ∧
    ((r.run ([0, 3, 1, 1, 2].map sampleCall)).flatMap Received.returned).Sublist (sample.map AccessUnit.delivered) :=
  ⟨_, rfl, run_delivers (p := plain) streamable_sample Cipher.identity_isSound.isHonest
    (show create {} plain.cipher = .ok _ from rfl) (by decide)
    (fun first hf => ⟨0, by obtain rfl := Option.some.inj hf; rfl⟩) (by decide +kernel)⟩

end Receiver
end VideoTransport
