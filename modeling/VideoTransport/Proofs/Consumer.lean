import Mathlib.Data.List.Flatten
import Mathlib.Data.List.Nodup
import VideoTransport.Buffer.Holdings
import VideoTransport.Proofs.Batch
import VideoTransport.Proofs.Conservation
/-!
# Consumer — an application that keeps units for a while

An application hands datagrams to a receiver, keeps the units that are returned, and gives each back when it likes.
Between calls the buffers that are out are those of the units it holds (`Consumer.InOrder`), so what it holds decides
which calls fail (`Consumer.calls_succeed`) and which units are shown but never returned (`Consumer.calls_agree_iff`).
-/
namespace VideoTransport

/-! ## Units that are held -/

namespace Holdings

variable {h : Holdings}

/-- The units held are on loan still, and each has a number of its own that has been given out. -/
structure IsSound (h : Holdings) : Prop where
  unreleased : ∀ e ∈ h.live, e.2.isReleased = false
  numbers : ∀ e ∈ h.live, e.1 < h.count
  nodup : (h.live.map (·.1)).Nodup

theorem isSound_new : ({} : Holdings).IsSound :=
  ⟨fun _ he => absurd he List.not_mem_nil, fun _ he => absurd he List.not_mem_nil, List.nodup_nil⟩

theorem IsSound.keep (hs : h.IsSound) {u : AccessUnit} (hu : u.isReleased = false) : (h.keep u).2.IsSound where
  unreleased e he := by
    rcases List.mem_append.1 he with he | he
    · exact hs.unreleased e he
    · rwa [List.mem_singleton.1 he]
  numbers e he := by
    rcases List.mem_append.1 he with he | he
    · exact Nat.lt_succ_of_lt (hs.numbers e he)
    · rw [List.mem_singleton.1 he]
      exact Nat.lt_succ_self h.count
  nodup := by
    rw [Holdings.keep, List.map_append]
    refine hs.nodup.append (List.nodup_singleton h.count) ?_
    rw [List.map_singleton, List.disjoint_singleton]
    -- The next number is above all that have been given out.
    intro hmem
    obtain ⟨e, he, hcount⟩ := List.mem_map.1 hmem
    exact Nat.ne_of_lt (hs.numbers e he) hcount

/-- Units that are kept join those held, and the pool stays as it is. -/
theorem takeOver_keeping : ∀ (units : List AccessUnit) {h : Holdings} (p : Pool), h.IsSound →
    (∀ u ∈ units, u.isReleased = false) →
    (takeOver true units h p).2.1.IsSound ∧
      (takeOver true units h p).2.1.live.length = h.live.length + units.length ∧ (takeOver true units h p).2.2 = p
  | [], _, _, hs, _ => ⟨hs, rfl, rfl⟩
  | u :: rest, h, p, hs, hu => by
    obtain ⟨hsound, hlength, hpool⟩ := takeOver_keeping rest p (hs.keep (hu u List.mem_cons_self)) fun v hv =>
      hu v (List.mem_cons_of_mem u hv)
    refine ⟨hsound, hlength.trans ?_, hpool⟩
    rw [Holdings.keep, List.length_append, List.length_singleton, List.length_cons]
    omega

/-- A unit that is given back frees its buffer. -/
theorem IsSound.drop (hs : h.IsSound) (id : Nat) {p : Pool} (hp : p.outstanding = h.live.length) :
    (h.drop id p).2.1.IsSound ∧ (h.drop id p).2.2.limit = p.limit ∧
      (h.drop id p).2.2.outstanding = (h.drop id p).2.1.live.length := by
  unfold Holdings.drop
  cases hfind : h.live.find? (·.1 = id) with
  | none => exact ⟨hs, rfl, hp⟩
  | some e =>
    obtain ⟨n, u⟩ := e
    have he := List.mem_of_find?_eq_some hfind
    have hid := List.find?_some hfind
    rw [decide_eq_true_eq] at hid
    obtain rfl : n = id := hid
    have hrelease := AccessUnit.release_of_unreleased (hs.unreleased _ he) p
    have hlength : (h.live.filter (·.1 ≠ n)).length + 1 = h.live.length := length_filter_key hs.nodup he
    refine ⟨⟨fun f hf => hs.unreleased f (List.mem_of_mem_filter hf),
      fun f hf => hs.numbers f (List.mem_of_mem_filter hf), ?_⟩, ?_, ?_⟩
    · exact hs.nodup.sublist (List.filter_sublist.map _)
    · rw [hrelease]
      rfl
    · rw [hrelease]
      show p.outstanding - 1 = (h.live.filter (·.1 ≠ n)).length
      omega

end Holdings

/-! ## One call -/

namespace Receiver

/-- What a call brings when `ready` leave the reorder buffer in it. -/
structure Brings (r : Receiver) (ready : List Rtp.Packet) (got : Received) : Prop where
  shown : got.shown = (r.assembler.dues ready).take r.pool.free
  result : got.result =
    if r.pool.free < (r.assembler.dues ready).length then .error (.poolExhausted r.pool.limit) else .ok got.shown
  limit : got.receiver.pool.limit = r.pool.limit
  outstanding : got.receiver.pool.outstanding = r.pool.outstanding + got.returned.length
  unitsReceived : got.receiver.counters.unitsReceived = r.counters.unitsReceived + UInt64.ofNat got.shown.length
  /-- Nothing has come to the reorder buffer, or one packet has. -/
  reorder : ready = [] ∧ got.receiver.reorder = r.reorder ∨
    ∃ s packet, ready = (r.reorder.add s packet).popReady.1 ∧
      got.receiver.reorder = (r.reorder.add s packet).popReady.2

theorem brings_nothing {r r' : Receiver} (hreorder : r'.reorder = r.reorder) (hpool : r'.pool = r.pool)
    (hunits : r'.counters.unitsReceived = r.counters.unitsReceived) (heeded : Bool) :
    Brings r [] { receiver := r', shown := [], result := .ok [], heeded } where
  shown := List.take_nil.symm
  result := (if_neg (Nat.not_lt_zero _)).symm
  limit := congrArg Pool.limit hpool
  outstanding := congrArg Pool.outstanding hpool
  unitsReceived := hunits.trans (UInt64.add_zero _).symm
  reorder := .inl ⟨rfl, hreorder⟩

theorem processMedia_unitsReceived (r : Receiver) (datagram : Bytes) (arrival : UInt32) :
    (r.processMedia datagram arrival).receiver.counters.unitsReceived =
      r.counters.unitsReceived + UInt64.ofNat (r.processMedia datagram arrival).shown.length := by
  cases hp : Rtp.Packet.parse datagram with
  | error reason =>
    unfold processMedia
    simp only [hp]
    exact (UInt64.add_zero _).symm
  | ok packet =>
    unfold processMedia
    simp only [hp]
    split
    · exact congrArg Counters.unitsReceived (repeat_recordUnitReceived _ _)
    · exact congrArg Counters.unitsReceived (repeat_recordUnitReceived _ _)

theorem brings_processMedia (r : Receiver) (datagram : Bytes) (arrival : UInt32) :
    Brings r (r.ready datagram) (r.processMedia datagram arrival) := by
  have hunits := r.processMedia_unitsReceived datagram arrival
  cases hp : Rtp.Packet.parse datagram with
  | error reason =>
    unfold processMedia ready
    simp only [hp]
    refine brings_nothing ?_ ?_ ?_ false <;> rfl
  | ok packet =>
    have hready : r.ready datagram = (r.reorder.add packet.header.sequence packet).popReady.1 := by
      unfold ready
      rw [hp]
    obtain ⟨hshown, hresult, hreorder, -, hassembler⟩ := r.processMedia_of_parse arrival hp hready.symm rfl
    obtain ⟨hcompleted, hfailure, hlimit, houtstanding⟩ := served_assemble (r.ready datagram) r.assembler
    generalize r.processMedia datagram arrival = got at *
    generalize assemble r.assembler (r.ready datagram) = batch at *
    by_cases hfull : r.assembler.pool.free < (r.assembler.dues (r.ready datagram)).length
    · rw [hfailure, if_pos hfull] at hresult hassembler
      have hreturned : got.returned = [] := by rw [Received.returned, hresult]
      have hcompletedOut : ∀ u ∈ batch.completed, u.isReleased = false := by
        intro u hu
        rw [hcompleted] at hu
        exact r.assembler.dues_isReleased _ u (List.mem_of_mem_take hu)
      obtain ⟨hkept, hback⟩ := AccessUnit.releaseAll_keeps batch.assembler.pool hcompletedOut
      refine ⟨hshown.trans hcompleted, hresult.trans (if_pos hfull).symm, ?_, ?_, hunits,
        .inr ⟨_, packet, hready, hreorder⟩⟩
      · rw [pool, hassembler]
        exact hkept.trans hlimit
      · -- The units that came out before the failure give their buffers back, as if none had been returned.
        rw [pool, hassembler, hreturned]
        refine hback.trans ?_
        rw [houtstanding]
        exact Nat.add_sub_cancel _ _
    · rw [hfailure, if_neg hfull, ← hshown] at hresult
      rw [hfailure, if_neg hfull] at hassembler
      have hreturned : got.returned = got.shown := by rw [Received.returned, hresult]
      refine ⟨hshown.trans hcompleted, hresult.trans (if_neg hfull).symm, ?_, ?_, hunits,
        .inr ⟨_, packet, hready, hreorder⟩⟩
      · rw [pool, hassembler]
        exact hlimit
      · rw [pool, hassembler, hreturned, hshown]
        exact houtstanding

theorem brings_processDatagram (r : Receiver) (datagram : Bytes) (arrival : UInt32) (now : Nat) :
    ∃ ready, Brings r ready (r.processDatagram datagram arrival now) := by
  unfold processDatagram
  split
  · refine ⟨[], ?_⟩
    have hkeeps : (r.processReport datagram now).2.reorder = r.reorder ∧
        (r.processReport datagram now).2.pool = r.pool ∧
        (r.processReport datagram now).2.counters.unitsReceived = r.counters.unitsReceived := by
      unfold processReport
      split <;> exact ⟨rfl, rfl, rfl⟩
    obtain ⟨hreorder, hpool, hunits⟩ := hkeeps
    exact brings_nothing hreorder hpool hunits _
  · exact ⟨_, r.brings_processMedia datagram arrival⟩

/-- A datagram handed to a receiver, as a media datagram or as one of either kind. -/
inductive Input where
  | media (datagram : Bytes) (arrival : UInt32)
  | any (datagram : Bytes) (arrival : UInt32) (now : Nat)

def answer (r : Receiver) : Input → Received
  | .media datagram arrival => r.processMedia datagram arrival
  | .any datagram arrival now => r.processDatagram datagram arrival now

/-- **What a call brings**, whatever is handed over. -/
theorem brings_answer (r : Receiver) : ∀ input : Input, ∃ ready, Brings r ready (r.answer input)
  | .media datagram arrival => ⟨_, r.brings_processMedia datagram arrival⟩
  | .any datagram arrival now => r.brings_processDatagram datagram arrival now

variable {r : Receiver} {ready : List Rtp.Packet} {got : Received}

theorem Brings.returned (h : Brings r ready got) :
    got.returned = if r.pool.free < (r.assembler.dues ready).length then [] else got.shown := by
  rw [Received.returned, h.result]
  by_cases hfull : r.pool.free < (r.assembler.dues ready).length
  · rw [if_pos hfull, if_pos hfull]
  · rw [if_neg hfull, if_neg hfull]

theorem Brings.returned_sublist (h : Brings r ready got) : got.returned.Sublist got.shown := by
  rw [h.returned]
  split
  · exact List.nil_sublist _
  · exact List.Sublist.refl _

theorem Brings.returned_isReleased (h : Brings r ready got) : ∀ u ∈ got.returned, u.isReleased = false := by
  intro u hu
  have hshown := h.returned_sublist.subset hu
  rw [h.shown] at hshown
  exact r.assembler.dues_isReleased ready u (List.mem_of_mem_take hshown)

theorem Brings.fails_iff (h : Brings r ready got) :
    got.result.isOk = false ↔ r.pool.free < (r.assembler.dues ready).length := by
  rw [h.result]
  by_cases hfull : r.pool.free < (r.assembler.dues ready).length
  · rw [if_pos hfull]
    exact ⟨fun _ => hfull, fun _ => rfl⟩
  · rw [if_neg hfull]
    exact ⟨fun hfails => (nomatch hfails), fun hshort => absurd hshort hfull⟩

/-- The units shown are returned unless the call fails when buffers are free. -/
theorem Brings.returned_eq_iff (h : Brings r ready got) :
    got.returned = got.shown ↔ (got.result.isOk = false → r.pool.free = 0) := by
  rw [h.fails_iff, h.returned]
  by_cases hfull : r.pool.free < (r.assembler.dues ready).length
  · have hsome : r.assembler.dues ready ≠ [] := List.ne_nil_of_length_pos (Nat.zero_lt_of_lt hfull)
    rw [if_pos hfull, h.shown, eq_comm, List.take_eq_nil_iff]
    exact ⟨fun hnone _ => hnone.resolve_right hsome, fun hfree => .inl (hfree hfull)⟩
  · rw [if_neg hfull]
    exact ⟨fun _ hshort => absurd hshort hfull, fun _ => rfl⟩

end Receiver

/-! ## A run of calls -/

/-- A receiver, and the units that the application behind it holds. -/
structure Consumer where
  receiver : Receiver
  held : Holdings := {}

namespace Consumer

open Receiver (Brings Input Received)

def keep (c : Consumer) (got : Received) : Consumer :=
  let (_, held, pool) := Holdings.takeOver true got.returned c.held got.receiver.pool
  { receiver := got.receiver.withPool pool, held }

/-- Give the unit with this number back, if one is held. -/
def giveBack (c : Consumer) (id : Nat) : Consumer :=
  let (_, held, pool) := c.held.drop id c.receiver.pool
  { receiver := c.receiver.withPool pool, held }

inductive Act where
  | hand (input : Input)
  | giveBack (id : Nat)

def next (c : Consumer) : Act → Consumer
  | .hand input => c.keep (c.receiver.answer input)
  | .giveBack id => c.giveBack id

def after (c : Consumer) (acts : List Act) : Consumer := acts.foldl next c

/-- A call: what was there before it, and what it brought. -/
structure Call where
  before : Consumer
  got : Received

/-- The calls among some acts. -/
def calls : Consumer → List Act → List Call
  | _, [] => []
  | c, .hand input :: rest => ⟨c, c.receiver.answer input⟩ :: (c.next (.hand input)).calls rest
  | c, .giveBack id :: rest => (c.next (.giveBack id)).calls rest

/-- **What holds between calls**: the buffers that are out are those of the units held. -/
structure InOrder (settings : ReceiverSettings) (c : Consumer) : Prop where
  limit : c.receiver.pool.limit = settings.poolCapacity
  outstanding : c.receiver.pool.outstanding = c.held.live.length
  held : c.held.IsSound
  reorder : c.receiver.reorder.IsCollected (max settings.reorderCapacity 1)

variable {settings : ReceiverSettings} {c : Consumer} {cipher : Cipher} {r : Receiver}

theorem inOrder_create (hr : Receiver.create settings cipher = .ok r) : InOrder settings { receiver := r } := by
  obtain ⟨-, hreorder, hassembler, -⟩ := Receiver.create_eq_ok hr
  refine ⟨?_, ?_, Holdings.isSound_new, ?_⟩
  · rw [Receiver.pool, hassembler]
    rfl
  · rw [Receiver.pool, hassembler]
    rfl
  · rw [hreorder]
    exact Reorder.isCollected_ofCapacity _

theorem InOrder.free (h : InOrder settings c) : c.receiver.pool.free = settings.poolCapacity - c.held.live.length := by
  rw [Pool.free, h.limit, h.outstanding]

theorem InOrder.keep (h : InOrder settings c) {ready : List Rtp.Packet} {got : Received}
    (hgot : Brings c.receiver ready got) : InOrder settings (c.keep got) := by
  obtain ⟨hsound, hlength, hpool⟩ :=
    Holdings.takeOver_keeping got.returned got.receiver.pool h.held hgot.returned_isReleased
  refine ⟨?_, ?_, hsound, ?_⟩
  · show (Holdings.takeOver true got.returned c.held got.receiver.pool).2.2.limit = settings.poolCapacity
    rw [hpool, hgot.limit, h.limit]
  · show (Holdings.takeOver true got.returned c.held got.receiver.pool).2.2.outstanding = _
    rw [hpool, hgot.outstanding, h.outstanding]
    exact hlength.symm
  · show got.receiver.reorder.IsCollected _
    rcases hgot.reorder with ⟨-, hsame⟩ | ⟨s, packet, -, harrived⟩
    · rw [hsame]
      exact h.reorder
    · rw [harrived]
      exact (h.reorder.arrive (Nat.le_max_right _ 1) s packet).2

theorem InOrder.giveBack (h : InOrder settings c) (id : Nat) : InOrder settings (c.giveBack id) := by
  obtain ⟨hsound, hlimit, houtstanding⟩ := h.held.drop id h.outstanding
  exact ⟨hlimit.trans h.limit, houtstanding, hsound, h.reorder⟩

theorem InOrder.next (h : InOrder settings c) : ∀ act : Act, InOrder settings (c.next act)
  | .hand input =>
    have ⟨_, hgot⟩ := c.receiver.brings_answer input
    h.keep hgot
  | .giveBack id => h.giveBack id

/-- **Every call of a run** finds things in order. -/
theorem InOrder.calls : ∀ (acts : List Act) {c : Consumer}, InOrder settings c →
    ∀ call ∈ c.calls acts, InOrder settings call.before ∧ ∃ ready, Brings call.before.receiver ready call.got
  | [], _, _, _, hcall => absurd hcall List.not_mem_nil
  | .hand input :: rest, c, h, call, hcall => by
    rcases List.mem_cons.1 hcall with rfl | hcall
    · exact ⟨h, c.receiver.brings_answer input⟩
    · exact InOrder.calls rest (h.next (.hand input)) call hcall
  | .giveBack id :: rest, _, h, call, hcall => InOrder.calls rest (h.next (.giveBack id)) call hcall

/-! ## Which calls fail -/

/-- The packets that leave the reorder buffer in one call are no more than may wait there and one. -/
theorem InOrder.length_dues_le (h : InOrder settings c) {ready : List Rtp.Packet} {got : Received}
    (hgot : Brings c.receiver ready got) :
    (c.receiver.assembler.dues ready).length ≤ max settings.reorderCapacity 1 + 1 := by
  refine Nat.le_trans (c.receiver.assembler.length_dues_le ready) ?_
  rcases hgot.reorder with ⟨rfl, -⟩ | ⟨s, packet, rfl, -⟩
  · exact Nat.zero_le _
  · exact (h.reorder.arrive (Nat.le_max_right _ 1) s packet).1

/-- **A pool that is large enough is never exhausted.**  Whatever the application is sent: if it holds at most `n` units
whenever it hands over a datagram, then `n` buffers, one for each packet that may wait and one more suffice, and every
call succeeds. -/
theorem calls_succeed (hr : Receiver.create settings cipher = .ok r) {n : Nat}
    (hpool : n + settings.reorderCapacity + 1 ≤ settings.poolCapacity) (acts : List Act)
    (hheld : ∀ call ∈ calls { receiver := r } acts, call.before.held.live.length ≤ n) :
    ∀ call ∈ calls { receiver := r } acts, ∃ units, call.got.result = .ok units := by
  intro call hcall
  have hcapacity : 1 ≤ settings.reorderCapacity := by
    obtain ⟨hfault, -⟩ := Receiver.create_eq_ok hr
    refine Nat.pos_of_ne_zero fun hzero => ?_
    rw [ReceiverSettings.fault?, if_pos (.inl hzero)] at hfault
    cases hfault
  obtain ⟨hinorder, ready, hgot⟩ := (inOrder_create hr).calls acts call hcall
  have hdues := hinorder.length_dues_le hgot
  have hfree := hinorder.free
  have hhere := hheld call hcall
  rw [Nat.max_eq_left hcapacity] at hdues
  have hroom : ¬call.before.receiver.pool.free < (call.before.receiver.assembler.dues ready).length := by omega
  exact ⟨call.got.shown, hgot.result.trans (if_neg hroom)⟩

/-- One packet may wait and one unit be held, so there are three buffers, and all are needed: the last packet of the sample
comes before the last but one, and the call in which both leave the reorder buffer brings two units. -/
theorem calls_succeed_tightly : ∃ r,
    Receiver.create { reorderCapacity := 1, poolCapacity := 3 } .identity = .ok r ∧
    let hand (i : Nat) : Act := .hand (.any (sampleArrival i).datagram 0 0)
    let acts := [0, 1, 3, 2].map hand ++ [.giveBack 0, .giveBack 2, hand 3]
    ∀ call ∈ calls { receiver := r } acts, ∃ units, call.got.result = .ok units :=
  ⟨_, rfl, calls_succeed (n := 1)
    (show Receiver.create { reorderCapacity := 1, poolCapacity := 3 } .identity = .ok _ from rfl) (by decide) _
    (by decide +kernel)⟩

/-- With a buffer less that call fails. -/
example : ∃ r, Receiver.create { reorderCapacity := 1, poolCapacity := 2 } .identity = .ok r ∧
    ((calls { receiver := r } ([0, 1, 3, 2].map fun i => .hand (.any (sampleArrival i).datagram 0 0))).map
      (·.got.result.isOk)) = [true, true, true, false] :=
  ⟨_, rfl, by decide +kernel⟩

/-! ## What is shown and what is returned -/

theorem unitsReceived_after : ∀ (acts : List Act) (c : Consumer),
    (c.after acts).receiver.counters.unitsReceived =
      c.receiver.counters.unitsReceived + UInt64.ofNat ((c.calls acts).flatMap (·.got.shown)).length
  | [], _ => (UInt64.add_zero _).symm
  | .hand input :: rest, c => by
    obtain ⟨_, hgot⟩ := c.receiver.brings_answer input
    have hcall : (c.next (.hand input)).receiver.counters.unitsReceived =
        c.receiver.counters.unitsReceived + UInt64.ofNat (c.receiver.answer input).shown.length := hgot.unitsReceived
    rw [after, List.foldl_cons, calls, List.flatMap_cons, List.length_append, UInt64.ofNat_add, ← UInt64.add_assoc,
      ← hcall]
    exact unitsReceived_after rest (c.next (.hand input))
  | .giveBack id :: rest, c => unitsReceived_after rest (c.next (.giveBack id))

/-- Lists put together from parts of the parts of another one are equal to it iff each part is whole. -/
theorem flatMap_eq_iff_of_sublist {α β : Type} {f g : α → List β} : ∀ {items : List α},
    (∀ x ∈ items, (f x).Sublist (g x)) → (items.flatMap f = items.flatMap g ↔ ∀ x ∈ items, f x = g x)
  | [], _ => ⟨fun _ _ hx => absurd hx List.not_mem_nil, fun _ => rfl⟩
  | x :: rest, h => by
    have hrest : ∀ y ∈ rest, (f y).Sublist (g y) := fun y hy => h y (List.mem_cons_of_mem x hy)
    have ih := flatMap_eq_iff_of_sublist hrest
    rw [List.flatMap_cons, List.flatMap_cons, List.forall_mem_cons, ← ih]
    constructor
    · intro heq
      have hlength := congrArg List.length heq
      have hhead := (h x List.mem_cons_self).length_le
      have htail := (List.Sublist.flatMap_right rest hrest).length_le
      rw [List.length_append, List.length_append] at hlength
      exact List.append_inj heq (by omega)
    · rintro ⟨hhead, htail⟩
      rw [hhead, htail]

/-- **Listeners, counters and return values.**  What listeners are shown is what is counted.  A call returns what it
shows or fails, and one that fails shows a unit for each buffer that was free.  So all that is shown is returned iff
every call that fails finds no buffer free. -/
theorem calls_agree_iff (hr : Receiver.create settings cipher = .ok r) (acts : List Act) :
    let run := calls { receiver := r } acts
    (after { receiver := r } acts).receiver.counters.unitsReceived =
        UInt64.ofNat (run.flatMap (·.got.shown)).length ∧
      (∀ call ∈ run, call.got.result = .ok call.got.shown ∨
        call.got.result = .error (.poolExhausted settings.poolCapacity) ∧
          call.got.shown.length = settings.poolCapacity - call.before.held.live.length) ∧
      (run.flatMap (·.got.shown) = run.flatMap (·.got.returned) ↔
        ∀ call ∈ run, call.got.result.isOk = false → settings.poolCapacity ≤ call.before.held.live.length) := by
  intro run
  have hcalls := (inOrder_create hr).calls acts
  refine ⟨?_, fun call hcall => ?_, ?_⟩
  · obtain ⟨-, -, -, hcounters⟩ := Receiver.create_eq_ok hr
    rw [unitsReceived_after, hcounters]
    exact UInt64.zero_add _
  · obtain ⟨hinorder, ready, hgot⟩ := hcalls call hcall
    have hresult := hgot.result
    by_cases hfull : call.before.receiver.pool.free < (call.before.receiver.assembler.dues ready).length
    · rw [if_pos hfull, hinorder.limit] at hresult
      refine .inr ⟨hresult, ?_⟩
      rw [hgot.shown, List.length_take_of_le (Nat.le_of_lt hfull), hinorder.free]
    · exact .inl (hresult.trans (if_neg hfull))
  · have hparts : ∀ call ∈ run, call.got.returned.Sublist call.got.shown := by
      intro call hcall
      obtain ⟨-, _, hgot⟩ := hcalls call hcall
      exact hgot.returned_sublist
    rw [eq_comm, flatMap_eq_iff_of_sublist hparts]
    refine forall₂_congr fun call hcall => ?_
    obtain ⟨hinorder, _, hgot⟩ := hcalls call hcall
    rw [hgot.returned_eq_iff, hinorder.free, Nat.sub_eq_zero_iff_le]

def sampleAct (i : Nat) : Act := .hand (.media (sampleArrival i).datagram 0)

/-- The pool has one buffer, and the application keeps the first unit of the sample.  The last packet comes before the
last but one, and the call in which both leave the reorder buffer fails and shows nothing. -/
theorem calls_agree_full : ∃ r, Receiver.create { poolCapacity := 1 } .identity = .ok r ∧
    let run := calls { receiver := r } ([0, 1, 3, 2].map sampleAct)
    (∃ call ∈ run, call.got.result.isOk = false) ∧ run.flatMap (·.got.shown) = run.flatMap (·.got.returned) :=
  ⟨_, rfl, by decide +kernel, (calls_agree_iff (show Receiver.create { poolCapacity := 1 } .identity = .ok _ from rfl)
    ([0, 1, 3, 2].map sampleAct)).2.2.2 (by decide +kernel)⟩

/-- With two buffers the same call fails after it has shown the second unit, and that is never returned. -/
theorem shows_unit_in_vain : ∃ r, Receiver.create { poolCapacity := 2 } .identity = .ok r ∧
    let run := calls { receiver := r } ([0, 1, 3, 2].map sampleAct)
    run.flatMap (·.got.shown) = (Packetizer.sample.take 2).map AccessUnit.delivered ∧
      run.flatMap (·.got.returned) = (Packetizer.sample.take 1).map AccessUnit.delivered ∧
      (after { receiver := r } ([0, 1, 3, 2].map sampleAct)).receiver.counters.unitsReceived = 2 :=
  ⟨_, rfl, by decide +kernel⟩

end Consumer
end VideoTransport
