import VideoTransport.Proofs.Stages
/-!
# Shortage — frames for which there is no buffer

Every frame that was begun is still in the making, has come out or has been counted as given up, but for those that
were finished while all buffers were lent: they are in no count (`started_accounted`).  Nothing else makes a packet
fail, and a packet that fails takes nothing along but its own frame and the one that made room for it; all later
packets fare as if there had been a buffer (`fails_for_want_of_buffer`).
-/
namespace VideoTransport
namespace Assembler

/-! ## The books -/

/-- The frames that the assembler knows of. -/
def accounted (a : Assembler) : Nat := a.pending + a.stats.completed + a.stats.dropped

/-- Whether a packet has failed because all buffers were lent. -/
def isShortage : Except Fault (Option AccessUnit) → Bool
  | .error (.poolExhausted _) => true
  | _ => false

/-- How many of the calls begin a frame. -/
def started : Assembler → List Call → Nat
  | _, [] => 0
  | a, c :: rest => (a.find? c.packet.header.timestamp).isNone.toNat + (a.next c).started rest

variable {a : Assembler}

theorem Tidy.accounted_touch (h : a.Tidy) (timestamp : UInt32) (s : Serial) :
    (a.touch timestamp s).2.accounted = a.accounted + (a.find? timestamp).isNone.toNat := by
  cases hfind : a.find? timestamp with
  | some f =>
    rw [touch_of_some hfind]
    rfl
  | none =>
    have hlen := a.spared_sublist.length_le
    rw [touch_of_none hfind h.nodup]
    simp only [accounted, pending, List.length_append, List.length_singleton, Option.isNone_none, Bool.toNat_true]
    omega

theorem accounted_finish (hn : (a.frames.map (·.timestamp)).Nodup) {f : Frame} (hf : f ∈ a.frames) :
    (a.finish f).1.accounted + (isShortage (a.finish f).2).toNat = a.accounted := by
  have hlen : (remove f.timestamp a.frames).length + 1 = a.frames.length := length_filter_key hn hf
  cases hu : f.content.unit? f.timestamp with
  | none =>
    rw [finish_unfinished hu]
    simp only [accounted, pending, isShortage, Bool.toNat_false]
    omega
  | some u =>
    by_cases hroom : a.pool.HasRoom
    · rw [finish_lent hu hroom]
      simp only [accounted, pending, isShortage, Bool.toNat_false]
      omega
    · rw [finish_exhausted hu hroom]
      simp only [accounted, pending, isShortage, Bool.toNat_true]
      omega

theorem accounted_settle (hn : (a.frames.map (·.timestamp)).Nodup) {f g : Frame} (h : a.find? f.timestamp = some g)
    (unread : Nat) (marker : Bool) :
    (a.settle f unread marker).1.accounted + (isShortage (a.settle f unread marker).2).toNat = a.accounted := by
  have hplaced : (a.placed f unread).accounted = a.accounted := by
    simp only [placed, accounted, pending, replace, List.length_map]
  cases marker with
  | false => exact hplaced
  | true =>
    have hnodup : ((a.placed f unread).frames.map (·.timestamp)).Nodup := (timestamp_replace f a.frames).symm ▸ hn
    obtain ⟨hg, htime⟩ := of_find?_eq_some h
    have hmem : f ∈ (a.placed f unread).frames := by
      refine List.mem_map.2 ⟨g, hg, ?_⟩
      rw [if_pos htime]
    exact (accounted_finish hnodup hmem).trans hplaced

/-- **One call** begins at most one frame, and loses at most one. -/
theorem Tidy.accounted_next (h : a.Tidy) (c : Call) :
    (a.next c).accounted + (isShortage (a.answer c)).toNat =
      a.accounted + (a.find? c.packet.header.timestamp).isNone.toNat := by
  obtain ⟨htouched, -⟩ := (h.met c).touch c.packet.header.timestamp c.packet.header.sequence
  have htouch := (h.met c).accounted_touch c.packet.header.timestamp c.packet.header.sequence
  obtain ⟨g, hg⟩ := (a.met c).find?_frameOf c.packet
  have hsettle := accounted_settle htouched.nodup hg ((a.met c).unreadable [c.packet]) c.packet.header.marker
  rw [Assembler.next, answer, process_eq_settle, hsettle, htouch]
  rfl

theorem Tidy.accounted_after : ∀ (calls : List Call) {a : Assembler}, a.Tidy →
    (a.after calls).accounted + (a.answers calls).countP isShortage = a.accounted + a.started calls
  | [], _, _ => rfl
  | c :: rest, a, h => by
    have hone := h.accounted_next c
    have hrest := (h.next c).accounted_after rest
    rw [answers, started, List.countP_cons]
    change ((a.next c).after rest).accounted + _ = _
    cases hshort : isShortage (a.answer c) with
    | false =>
      rw [hshort, Bool.toNat_false] at hone
      simp only [Bool.false_eq_true, if_false]
      omega
    | true =>
      rw [hshort, Bool.toNat_true] at hone
      simp only [if_true]
      omega

/-- **Where the frames that were begun are.**  Whatever packets come, whatever the cipher makes of them and whatever
becomes of the pool, each frame that was begun is in the making, has come out or has been counted as given up, except
for one with every call that failed because all buffers were lent.  So the three counts add up iff no call failed. -/
theorem started_accounted (cipher : Cipher) (pool : Pool) (limit : Nat) (calls : List Call) :
    let fresh := create cipher pool limit
    let a := fresh.after calls
    fresh.started calls =
        a.pending + a.stats.completed + a.stats.dropped + (fresh.answers calls).countP isShortage ∧
      (fresh.started calls = a.pending + a.stats.completed + a.stats.dropped ↔
        ∀ answer ∈ fresh.answers calls, ∀ limit, answer ≠ .error (.poolExhausted limit)) := by
  intro fresh a
  have hafter : a.accounted + (fresh.answers calls).countP isShortage = 0 + fresh.started calls :=
    Tidy.accounted_after calls (.create cipher pool limit)
  have hbooks : fresh.started calls =
      a.pending + a.stats.completed + a.stats.dropped + (fresh.answers calls).countP isShortage := by
    rw [← Nat.zero_add (fresh.started calls), ← hafter, accounted]
  have hnone : (fresh.answers calls).countP isShortage = 0 ↔
      ∀ answer ∈ fresh.answers calls, ∀ limit, answer ≠ .error (.poolExhausted limit) := by
    rw [List.countP_eq_zero]
    refine forall₂_congr fun answer _ => ?_
    unfold isShortage
    split <;> simp_all
  refine ⟨hbooks, ?_⟩
  rw [← hnone, hbooks]
  omega

/-- Two units of a packet each, and a pool with one buffer that the application keeps. -/
theorem started_unaccounted :
    let pool : Pool := .ofLimit 1
    let fresh := create .identity pool 4
    let calls : List Call := [
      ⟨⟨⟨true, 96, 0, 1, 1⟩, [0x41, 0x01]⟩, pool, .identity, by decide⟩,
      ⟨⟨⟨true, 96, 1, 2, 1⟩, [0x41, 0x02]⟩, { pool with outstanding := 1 }, .identity, by decide⟩]
    let a := fresh.after calls
    fresh.started calls = 2 ∧ a.pending + a.stats.completed + a.stats.dropped = 1 := by decide +kernel

/-! ## Calls that fail -/

/-- Two assemblers with the same frames in the making, whatever has come out of either and whatever their pools are. -/
structure Alike (a b : Assembler) : Prop where
  cipher : a.cipher = b.cipher
  limit : a.limit = b.limit
  frames : a.frames = b.frames
  clock : a.clock = b.clock
  lastSequence : a.lastSequence = b.lastSequence

namespace Alike

variable {a b : Assembler}

theorem withRoom (h : Alike a b) : Alike a.withRoom b.withRoom := by
  have hspared : a.spared = b.spared := by rw [spared, spared, pending, pending, h.limit, h.frames]
  obtain ⟨hframes, hcipher, hlimit, hclock, hlast⟩ := a.withRoom_keeps
  obtain ⟨hframes', hcipher', hlimit', hclock', hlast'⟩ := b.withRoom_keeps
  refine ⟨?_, ?_, ?_, ?_, ?_⟩
  · rw [hcipher, hcipher', h.cipher]
  · rw [hlimit, hlimit', h.limit]
  · rw [hframes, hframes', hspared]
  · rw [hclock, hclock', h.clock]
  · rw [hlast, hlast', h.lastSequence]

theorem touch (h : Alike a b) (timestamp : UInt32) (s : Serial) :
    (a.touch timestamp s).1 = (b.touch timestamp s).1 ∧ Alike (a.touch timestamp s).2 (b.touch timestamp s).2 := by
  have hfind : a.find? timestamp = b.find? timestamp := congrArg (List.find? _) h.frames
  cases hb : b.find? timestamp with
  | some f =>
    rw [touch_of_some (hfind.trans hb), touch_of_some hb, h.clock]
    exact ⟨rfl, h.cipher, h.limit, h.frames, rfl, rfl⟩
  | none =>
    have hbegun : a.begun timestamp s = b.begun timestamp s := by rw [begun, begun, h.clock, h.lastSequence]
    have hcounted : Alike (a.counted s) (b.counted s) :=
      ⟨h.cipher, h.limit, h.frames, congrArg (· + 1) h.clock, rfl⟩
    have hroom := hcounted.withRoom
    rw [touch_of_new (hfind.trans hb), touch_of_new hb, hbegun]
    exact ⟨rfl, hroom.cipher, hroom.limit, congrArg (· ++ _) hroom.frames, hroom.clock, hroom.lastSequence⟩

theorem settle (h : Alike a b) (f : Frame) (unread unread' : Nat) (marker : Bool) :
    Alike (a.settle f unread marker).1 (b.settle f unread' marker).1 := by
  obtain ⟨hcipher, hlimit, hclock, hlast⟩ := a.settle_keeps f unread marker
  obtain ⟨hcipher', hlimit', hclock', hlast'⟩ := b.settle_keeps f unread' marker
  refine ⟨?_, ?_, ?_, ?_, ?_⟩
  · rw [hcipher, hcipher', h.cipher]
  · rw [hlimit, hlimit', h.limit]
  · rw [frames_settle, frames_settle, h.frames]
  · rw [hclock, hclock', h.clock]
  · rw [hlast, hlast', h.lastSequence]

theorem frameOf (h : Alike a b) (p : Rtp.Packet) : a.frameOf p = b.frameOf p := by
  unfold Assembler.frameOf heard
  rw [(h.touch p.header.timestamp p.header.sequence).1, h.cipher]

theorem process (h : Alike a b) (p : Rtp.Packet) : Alike (a.process p).1 (b.process p).1 := by
  rw [process_eq_settle, process_eq_settle, h.frameOf p]
  exact (h.touch p.header.timestamp p.header.sequence).2.settle _ _ _ _

theorem met (h : Alike a b) (c : Call) : Alike (a.met c) (b.met c) :=
  ⟨rfl, h.limit, h.frames, h.clock, h.lastSequence⟩

/-- Of what has come out before and of the pools before, no later answer tells. -/
theorem answer (h : Alike a b) (c : Call) : a.answer c = b.answer c := by
  rw [Assembler.answer, Assembler.answer, (process_due _ _).1, (process_due _ _).1, due, due, (h.met c).frameOf]
  rfl

theorem answers : ∀ (calls : List Call) {a b : Assembler}, Alike a b → a.answers calls = b.answers calls
  | [], _, _, _ => rfl
  | c :: rest, _, _, h => by
    have hnext := (h.met c).process c.packet
    rw [Assembler.answers, Assembler.answers, h.answer c]
    exact congrArg _ (answers rest hnext)

end Alike

/-- What a call takes along that fails: its own frame, and the one that made room for it. -/
structure Fails (a : Assembler) (c : Call) : Prop where
  gone : (a.next c).find? c.packet.header.timestamp = none
  others : ∀ t ≠ c.packet.header.timestamp, (a.next c).find? t =
    if (a.givesWay c.packet.header.timestamp).any (·.timestamp = t) then none else a.find? t
  yields : ∀ f, a.givesWay c.packet.header.timestamp = some f →
    a.find? c.packet.header.timestamp = none ∧ a.pending = a.limit ∧ f ∈ a.frames ∧
      ∀ g ∈ a.frames, f.lastUsed ≤ g.lastUsed
  pool : (a.next c).pool = c.pool
  /-- All later calls are answered as if there had been a buffer. -/
  goesOn : ∀ c' : Call, c'.packet = c.packet → c'.cipher = c.cipher → ∀ later,
    (a.next c).answers later = (a.next c').answers later

/-- A unit is due when the packet has the marker and its frame is intact, with no fragments left open and at least one
NAL unit. -/
theorem due_isSome_iff (p : Rtp.Packet) : (a.due p).isSome = true ↔
    p.header.marker = true ∧ ∃ nals ≠ [], (a.frameOf p).content = .intact nals none := by
  unfold due Frame.due FrameContent.unit?
  cases p.header.marker with
  | false => simp
  | true =>
    simp only [if_true, Option.isSome_map, true_and]
    rw [Option.isSome_iff_exists]
    constructor
    · rintro ⟨nals, hn⟩
      obtain ⟨hne, hcontent⟩ := FrameContent.finished?_eq_some_iff.1 hn
      exact ⟨nals.reverse, fun h => hne (List.reverse_eq_nil_iff.1 h), hcontent⟩
    · rintro ⟨nals, hne, hcontent⟩
      refine ⟨nals.reverse, FrameContent.finished?_eq_some_iff.2 ⟨fun h => hne (List.reverse_eq_nil_iff.1 h), ?_⟩⟩
      rw [List.reverse_reverse, hcontent]

theorem Call.full_iff (c : Call) : ¬c.pool.HasRoom ↔ c.pool.outstanding = c.pool.limit := by
  have hbounded := c.bounded
  unfold Pool.HasRoom
  omega

theorem answer_eq_error_iff (a : Assembler) (c : Call) (fault : Fault) : a.answer c = .error fault ↔
    ((a.met c).due c.packet).isSome = true ∧ c.pool.outstanding = c.pool.limit ∧
      fault = .poolExhausted c.pool.limit := by
  rw [answer, (process_due _ _).1, show (a.met c).pool = c.pool from rfl, ← c.full_iff]
  cases hdue : (a.met c).due c.packet with
  | none => simp [Pool.grant]
  | some u =>
    by_cases hroom : c.pool.HasRoom
    · simp [Pool.grant, hroom]
    · simp [Pool.grant, hroom, eq_comm]

theorem Tidy.fails (h : a.Tidy) {c : Call} {fault : Fault} (hfault : a.answer c = .error fault) : a.Fails c := by
  obtain ⟨hdue, hfull, -⟩ := (a.answer_eq_error_iff c fault).1 hfault
  have hmarker := ((a.met c).due_isSome_iff c.packet |>.1 hdue).1
  have htable (t : UInt32) := (a.met c).find?_process c.packet t
  refine ⟨?_, fun t ht => ?_, fun f hf => h.givesWay_eq_some hf, ?_, fun c' hpacket hcipher later => ?_⟩
  · rw [Assembler.next, htable, if_pos rfl, if_pos hmarker]
  · rw [Assembler.next, htable, if_neg ht]
    rfl
  · have hroom : ¬c.pool.HasRoom := c.full_iff.2 hfull
    rw [Assembler.next, (process_due _ _).2, show (a.met c).pool = c.pool from rfl, Pool.granted_of_full hroom]
    rfl
  · have halike : Alike (a.met c) (a.met c') := ⟨hcipher.symm, rfl, rfl, rfl, rfl⟩
    have hnext : Alike (a.next c) (a.next c') := by
      unfold Assembler.next
      rw [hpacket]
      exact halike.process c.packet
    exact hnext.answers later

/-- **When a call fails.**  Whatever calls have been made of an assembler, the only fault of a call is that all buffers
are lent, and it occurs exactly when the packet has the marker, its frame is intact, with no fragments left open and at
least one NAL unit, and the pool has lent as many buffers as it may.  Then the frame is gone and the pool is as it was;
of the other frames only the least recent one is gone, and only when the packet began a frame in a full table; and all
later calls are answered as if there had been a buffer. -/
theorem fails_for_want_of_buffer (cipher : Cipher) (pool : Pool) (limit : Nat) (calls : List Call) (c : Call) :
    let a := (create cipher pool limit).after calls
    (∀ fault, a.answer c = .error fault → fault = .poolExhausted c.pool.limit) ∧
      ((∃ fault, a.answer c = .error fault) ↔
        c.packet.header.marker = true ∧
          (∃ nals ≠ [], ((a.met c).frameOf c.packet).content = .intact nals none) ∧
          c.pool.outstanding = c.pool.limit) ∧
      ((∃ fault, a.answer c = .error fault) → a.Fails c) := by
  intro a
  have htidy : a.Tidy := Tidy.after calls (.create cipher pool limit)
  refine ⟨fun fault hfault => ((a.answer_eq_error_iff c fault).1 hfault).2.2, ?_, ?_⟩
  · rw [← and_assoc, ← due_isSome_iff]
    constructor
    · rintro ⟨fault, hfault⟩
      obtain ⟨hdue, hfull, -⟩ := (a.answer_eq_error_iff c fault).1 hfault
      exact ⟨hdue, hfull⟩
    · rintro ⟨hdue, hfull⟩
      exact ⟨_, (a.answer_eq_error_iff c _).2 ⟨hdue, hfull, rfl⟩⟩
  · rintro ⟨fault, hfault⟩
    exact htidy.fails hfault

/-- A table for one frame, and a pool with one buffer that the application keeps: a unit of one packet finds neither
room nor a buffer, and the frame that made room for it is gone too. -/
theorem fails_and_evicts :
    let pool : Pool := .ofLimit 1
    let a := (create .identity pool 1).after [
      ⟨⟨⟨true, 96, 0, 0, 1⟩, [0x41, 0x9a]⟩, pool, .identity, by decide⟩,
      ⟨⟨⟨false, 96, 1, 3000, 1⟩, [0x41, 0x9b]⟩, { pool with outstanding := 1 }, .identity, by decide⟩]
    let c : Call := ⟨⟨⟨true, 96, 2, 6000, 1⟩, [0x41, 0x9c]⟩, { pool with outstanding := 1 }, .identity, by decide⟩
    a.answer c = .error (.poolExhausted 1) ∧ (a.find? 3000).isSome = true ∧ (a.next c).find? 3000 = none :=
  ⟨rfl, by decide +kernel, by decide +kernel⟩

end Assembler
end VideoTransport
