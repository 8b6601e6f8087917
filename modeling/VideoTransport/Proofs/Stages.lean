import Mathlib.Data.List.Nodup
import VideoTransport.Proofs.Batch
/-!
# Stages — a packet's way through an assembler, seen from its table

A packet finds its frame, for which room may have to be made (`touch_of_new`); the frame hears the packet and, with the
marker, ends (`process_eq_settle`).  What that makes of the table is told time by time: the frame of the packet's own
time is there as it has heard the packet, or gone; a frame that has given way is gone; every other time finds what it
found before (`find?_process`).
-/
namespace VideoTransport
namespace Assembler

/-! ## The stages -/

/-- The assembler that has counted packet number `s`. -/
def counted (a : Assembler) (s : Serial) : Assembler := { a with clock := a.clock + 1, lastSequence := some s }

/-- The assembler with room for one more frame. -/
def withRoom (a : Assembler) : Assembler := if a.limit ≤ a.frames.length then a.evict else a

/-- **A new time** begins a frame, for which room is made. -/
theorem touch_of_new {a : Assembler} {timestamp : UInt32} (h : a.find? timestamp = none) (s : Serial) :
    a.touch timestamp s =
      (a.begun timestamp s,
        { (a.counted s).withRoom with frames := (a.counted s).withRoom.frames ++ [a.begun timestamp s] }) := by
  have hf : ({ a with clock := a.clock + 1, lastSequence := some s } : Assembler).find? timestamp = none := h
  rw [touch, hf]
  rfl

/-- A frame takes its place as it is now, and the packet is counted if it could not be read. -/
def placed (a : Assembler) (f : Frame) (unread : Nat) : Assembler :=
  { a with
    frames := replace f a.frames
    stats := { a.stats with malformed := a.stats.malformed + unread } }

/-- The last stage: a frame takes its place, and with the marker it ends. -/
def settle (a : Assembler) (f : Frame) (unread : Nat) (marker : Bool) : Assembler × Except Fault (Option AccessUnit) :=
  if marker then (a.placed f unread).finish f else (a.placed f unread, .ok none)

/-- **A packet's way** is to find its frame, to be heard and to be settled. -/
theorem process_eq_settle (a : Assembler) (p : Rtp.Packet) :
    a.process p =
      (a.touch p.header.timestamp p.header.sequence).2.settle (a.frameOf p) (a.unreadable [p]) p.header.marker := by
  have hcipher := (a.touch_keeps p.header.timestamp p.header.sequence).2.1
  unfold process frameOf
  generalize a.touch p.header.timestamp p.header.sequence = touched at hcipher
  obtain ⟨f, b⟩ := touched
  have hopens : b.open? p = a.open? p := by rw [open?, open?, hcipher]
  have hunread : a.unreadable [p] = if (a.open? p).isSome then 0 else 1 := unreadable_cons p []
  cases hopen : a.open? p with
  | none =>
    have hheard := heard_unreadable hopen f.content
    rw [hopen] at hunread
    simp only [hopens, hopen, hheard, hunread]
    rfl
  | some payload =>
    have hheard := heard_of_open hopen f.content
    rw [hopen] at hunread
    simp only [hopens, hopen, hheard, hunread]
    rfl

theorem withRoom_keeps (a : Assembler) :
    a.withRoom.frames = a.spared ∧ a.withRoom.cipher = a.cipher ∧ a.withRoom.limit = a.limit ∧
      a.withRoom.clock = a.clock ∧ a.withRoom.lastSequence = a.lastSequence := by
  unfold withRoom spared pending evict
  split
  · cases hframes : a.frames with
    | nil => exact ⟨hframes, rfl, rfl, rfl, rfl⟩
    | cons f rest => exact ⟨rfl, rfl, rfl, rfl, rfl⟩
  · exact ⟨rfl, rfl, rfl, rfl, rfl⟩

theorem touch_ticks (a : Assembler) (timestamp : UInt32) (s : Serial) :
    (a.touch timestamp s).1.lastUsed = a.clock + 1 ∧ (a.touch timestamp s).2.limit = a.limit ∧
      (a.touch timestamp s).2.clock = a.clock + 1 ∧ (a.touch timestamp s).2.lastSequence = some s := by
  cases h : a.find? timestamp with
  | some f =>
    rw [touch_of_some h]
    exact ⟨rfl, rfl, rfl, rfl⟩
  | none =>
    rw [touch_of_new h]
    obtain ⟨-, -, hlimit, hclock, hlast⟩ := withRoom_keeps (a.counted s)
    exact ⟨rfl, hlimit, hclock, hlast⟩

theorem finish_notes (a : Assembler) (f : Frame) :
    (a.finish f).1.clock = a.clock ∧ (a.finish f).1.lastSequence = a.lastSequence := by
  unfold finish
  dsimp only
  split
  · exact ⟨rfl, rfl⟩
  · split
    · exact ⟨rfl, rfl⟩
    · split <;> exact ⟨rfl, rfl⟩

theorem settle_keeps (a : Assembler) (f : Frame) (unread : Nat) (marker : Bool) :
    (a.settle f unread marker).1.cipher = a.cipher ∧ (a.settle f unread marker).1.limit = a.limit ∧
      (a.settle f unread marker).1.clock = a.clock ∧ (a.settle f unread marker).1.lastSequence = a.lastSequence := by
  unfold settle
  split
  · obtain ⟨-, hlimit, hcipher, -⟩ := finish_keeps (a.placed f unread) f
    exact ⟨hcipher, hlimit, finish_notes (a.placed f unread) f⟩
  · exact ⟨rfl, rfl, rfl, rfl⟩

theorem frames_settle (a : Assembler) (f : Frame) (unread : Nat) (marker : Bool) :
    (a.settle f unread marker).1.frames =
      if marker then remove f.timestamp (replace f a.frames) else replace f a.frames := by
  unfold settle
  split
  · exact (finish_keeps _ f).1
  · rfl

/-- A packet moves the clock by one, and its number is remembered. -/
theorem process_keeps (a : Assembler) (p : Rtp.Packet) :
    (a.process p).1.cipher = a.cipher ∧ (a.process p).1.limit = a.limit ∧ (a.process p).1.clock = a.clock + 1 ∧
      (a.process p).1.lastSequence = some p.header.sequence := by
  obtain ⟨-, hlimit, hclock, hlast⟩ := a.touch_ticks p.header.timestamp p.header.sequence
  have hcipher := (a.touch_keeps p.header.timestamp p.header.sequence).2.1
  obtain ⟨hcipher', hlimit', hclock', hlast'⟩ := settle_keeps (a.touch p.header.timestamp p.header.sequence).2
    (a.frameOf p) (a.unreadable [p]) p.header.marker
  rw [process_eq_settle]
  exact ⟨hcipher'.trans hcipher, hlimit'.trans hlimit, hclock'.trans hclock, hlast'.trans hlast⟩

/-! ## Frames given up -/

/-- How many frames a packet makes an assembler give up: one that gives way to the packet's own, and its own if that
ends unfinished. -/
def givenUp (a : Assembler) (p : Rtp.Packet) : Nat :=
  (a.crowdsOut p.header.timestamp).toNat + (p.header.marker && (a.frameOf p).content.finished?.isNone).toNat

theorem finish_dropped (a : Assembler) (f : Frame) :
    (a.finish f).1.stats.dropped = a.stats.dropped + f.content.finished?.isNone.toNat := by
  cases hu : f.content.finished? with
  | none =>
    rw [finish_unfinished (by rw [FrameContent.unit?, hu]; rfl)]
    rfl
  | some nals =>
    have hdue : f.content.unit? f.timestamp = some (.assembled f.timestamp nals) := by rw [FrameContent.unit?, hu]; rfl
    by_cases hroom : a.pool.HasRoom
    · rw [finish_lent hdue hroom]
      rfl
    · rw [finish_exhausted hdue hroom]
      rfl

/-- **One packet** is counted as it is tallied. -/
theorem process_stats (a : Assembler) (p : Rtp.Packet) :
    (a.process p).1.cipher = a.cipher ∧ (a.process p).1.stats.dropped = a.stats.dropped + a.givenUp p ∧
      (a.process p).1.stats.malformed = a.stats.malformed + a.unreadable [p] := by
  obtain ⟨b, -, hcipher, hstats, hprocess⟩ := a.process_ends p
  rw [hprocess, givenUp]
  cases p.header.marker with
  | true =>
    obtain ⟨-, -, hkept, hmalformed⟩ := finish_keeps b (a.frameOf p)
    refine ⟨hkept.trans hcipher, ?_, ?_⟩
    · rw [if_pos rfl, finish_dropped, hstats, Bool.true_and, Nat.add_assoc]
    · rw [if_pos rfl, hmalformed, hstats]
  | false =>
    refine ⟨hcipher, ?_, ?_⟩
    · rw [if_neg Bool.false_ne_true, hstats]
      rfl
    · rw [if_neg Bool.false_ne_true, hstats]

/-! ## The table by times -/

theorem find?_replace (f : Frame) (t : UInt32) : ∀ frames : List Frame,
    (replace f frames).find? (·.timestamp = t) =
      if t = f.timestamp then (frames.find? (·.timestamp = t)).map fun _ => f
      else frames.find? (·.timestamp = t)
  | [] => by simp [replace]
  | g :: rest => by
    have ih := find?_replace f t rest
    have hcons : replace f (g :: rest) = (if g.timestamp = f.timestamp then f else g) :: replace f rest := rfl
    rw [hcons, List.find?_cons, List.find?_cons, ih]
    by_cases hg : g.timestamp = f.timestamp
    · by_cases ht : t = f.timestamp
      · simp [hg, ht]
      · have hne : ¬f.timestamp = t := fun h => ht h.symm
        simp [hg, ht, hne]
    · by_cases ht : t = f.timestamp
      · simp [hg, ht]
      · simp [hg, ht]

theorem find?_remove (timestamp t : UInt32) (frames : List Frame) :
    (remove timestamp frames).find? (·.timestamp = t) =
      if t = timestamp then none else frames.find? (·.timestamp = t) := by
  rw [remove, List.find?_filter]
  split
  · rename_i ht
    refine List.find?_eq_none.2 fun g _ => ?_
    simp [ht]
  · rename_i ht
    refine congrArg (List.find? · frames) (funext fun g => ?_)
    by_cases hg : g.timestamp = t
    · simp [hg, ht]
    · simp [hg]

theorem find?_append_singleton (frames : List Frame) (f : Frame) (t : UInt32) :
    (frames ++ [f]).find? (·.timestamp = t) =
      (frames.find? (·.timestamp = t)).or (if t = f.timestamp then some f else none) := by
  rw [List.find?_append, List.find?_singleton]
  by_cases ht : t = f.timestamp
  · simp [ht]
  · have hne : ¬f.timestamp = t := fun h => ht h.symm
    simp [ht, hne]

def leastRecent? : List Frame → Option Frame
  | [] => none
  | f :: rest => some (leastRecent f rest)

/-- The frame that gives way to one of this time. -/
def givesWay (a : Assembler) (timestamp : UInt32) : Option Frame :=
  if a.crowdsOut timestamp then leastRecent? a.frames else none

variable (a : Assembler)

theorem find?_withRoom (t : UInt32) :
    a.withRoom.find? t =
      if (if a.limit ≤ a.frames.length then leastRecent? a.frames else none).any (·.timestamp = t) then none
      else a.find? t := by
  unfold withRoom
  split
  · unfold evict
    cases hf : a.frames with
    | nil => simp [leastRecent?]
    | cons f rest =>
      rw [leastRecent?, Option.any_some]
      show (remove (leastRecent f rest).timestamp (f :: rest)).find? _ = _
      rw [find?_remove, ← hf]
      by_cases ht : t = (leastRecent f rest).timestamp
      · simp [ht]
      · have hne : ¬(leastRecent f rest).timestamp = t := fun h => ht h.symm
        simp [ht, hne, find?]
  · rfl

theorem givesWay_of_some {timestamp : UInt32} {f : Frame} (h : a.find? timestamp = some f) :
    a.givesWay timestamp = none := by
  rw [givesWay, crowdsOut, h]
  rfl

theorem givesWay_of_none {timestamp : UInt32} (h : a.find? timestamp = none) :
    a.givesWay timestamp = if a.limit ≤ a.pending then leastRecent? a.frames else none := by
  rw [givesWay, crowdsOut, h]
  cases hf : a.frames with
  | nil => simp [leastRecent?]
  | cons f rest => simp

theorem isSome_givesWay (timestamp : UInt32) : (a.givesWay timestamp).isSome = a.crowdsOut timestamp := by
  unfold givesWay
  split
  · rename_i hcrowds
    have hne := (of_decide_eq_true (Bool.and_eq_true_iff.1 hcrowds).2).2
    obtain ⟨f, rest, hframes⟩ := List.exists_cons_of_ne_nil hne
    rw [hframes, hcrowds]
    rfl
  · rename_i hcrowds
    exact (Bool.eq_false_iff.2 hcrowds).symm

theorem timestamp_touch (timestamp : UInt32) (s : Serial) : (a.touch timestamp s).1.timestamp = timestamp := by
  cases h : a.find? timestamp with
  | some f =>
    rw [touch_of_some h]
    exact (of_find?_eq_some h).2
  | none =>
    rw [touch_of_new h]
    rfl

/-- **The table once a packet has found its frame.** -/
theorem find?_touch (timestamp : UInt32) (s : Serial) :
    (∃ g, (a.touch timestamp s).2.find? timestamp = some g) ∧ ∀ t, t ≠ timestamp →
      (a.touch timestamp s).2.find? t =
        if (a.givesWay timestamp).any (·.timestamp = t) then none else a.find? t := by
  cases h : a.find? timestamp with
  | some f =>
    rw [touch_of_some h, a.givesWay_of_some h]
    exact ⟨⟨f, h⟩, fun t _ => rfl⟩
  | none =>
    have hroom (t : UInt32) : (a.counted s).withRoom.find? t =
        if (a.givesWay timestamp).any (·.timestamp = t) then none else a.find? t := by
      rw [a.givesWay_of_none h]
      exact find?_withRoom (a.counted s) t
    have hnone : (a.counted s).withRoom.find? timestamp = none := by
      rw [hroom, h, ite_self]
    have hall (t : UInt32) : (a.touch timestamp s).2.find? t =
        ((a.counted s).withRoom.find? t).or (if t = timestamp then some (a.begun timestamp s) else none) := by
      rw [touch_of_new h]
      exact find?_append_singleton (a.counted s).withRoom.frames (a.begun timestamp s) t
    refine ⟨⟨a.begun timestamp s, ?_⟩, fun t ht => ?_⟩
    · rw [hall, hnone, if_pos rfl, Option.none_or]
    · rw [hall, if_neg ht, Option.or_none, hroom]

/-- **The table once a frame has been settled.** -/
theorem find?_settle {f g : Frame} (h : a.find? f.timestamp = some g) (unread : Nat) (marker : Bool) (t : UInt32) :
    (a.settle f unread marker).1.find? t =
      if t = f.timestamp then if marker then none else some f else a.find? t := by
  have hplaced : (replace f a.frames).find? (·.timestamp = t) =
      if t = f.timestamp then some f else a.find? t := by
    rw [find?_replace]
    split
    · rename_i ht
      rw [ht, show a.frames.find? (·.timestamp = f.timestamp) = some g from h]
      rfl
    · rfl
  rw [find?, frames_settle]
  cases marker with
  | false => exact hplaced
  | true =>
    rw [if_pos rfl, find?_remove, hplaced]
    split <;> rfl

theorem timestamp_frameOf (p : Rtp.Packet) : (a.frameOf p).timestamp = p.header.timestamp := a.timestamp_touch _ _

/-- By the time a frame hears a packet, it has its place. -/
theorem find?_frameOf (p : Rtp.Packet) : ∃ g,
    (a.touch p.header.timestamp p.header.sequence).2.find? (a.frameOf p).timestamp = some g := by
  rw [timestamp_frameOf]
  exact (a.find?_touch p.header.timestamp p.header.sequence).1

/-- **One packet, told time by time.**  Its own frame is there as it has heard the packet, or gone with the marker; a
frame that has given way is gone; of every other time the table holds what it held. -/
theorem find?_process (p : Rtp.Packet) (t : UInt32) :
    (a.process p).1.find? t =
      if t = p.header.timestamp then if p.header.marker then none else some (a.frameOf p)
      else if (a.givesWay p.header.timestamp).any (·.timestamp = t) then none
      else a.find? t := by
  obtain ⟨g, hg⟩ := a.find?_frameOf p
  obtain ⟨-, hothers⟩ := a.find?_touch p.header.timestamp p.header.sequence
  rw [process_eq_settle, find?_settle _ hg, timestamp_frameOf]
  split
  · rfl
  · rename_i ht
    exact hothers t ht

/-- In a tidy table every frame is the one of its time. -/
theorem Tidy.find?_of_mem {a : Assembler} (h : a.Tidy) {f : Frame} (hf : f ∈ a.frames) :
    a.find? f.timestamp = some f := by
  have hsome : (a.find? f.timestamp).isSome = true := List.find?_isSome.2 ⟨f, hf, decide_eq_true rfl⟩
  obtain ⟨g, hg⟩ := Option.isSome_iff_exists.1 hsome
  obtain ⟨hmem, htime⟩ := of_find?_eq_some hg
  rw [hg, List.inj_on_of_nodup_map h.nodup hmem hf htime]

/-- A frame gives way to a new time in a full table, and it is one that was touched least recently. -/
theorem Tidy.givesWay_eq_some {a : Assembler} (h : a.Tidy) {timestamp : UInt32} {f : Frame}
    (hf : a.givesWay timestamp = some f) :
    a.find? timestamp = none ∧ a.pending = a.limit ∧ f ∈ a.frames ∧ ∀ g ∈ a.frames, f.lastUsed ≤ g.lastUsed := by
  unfold givesWay at hf
  split at hf
  · rename_i hcrowds
    obtain ⟨hnew, hfull⟩ := Bool.and_eq_true_iff.1 hcrowds
    have hle := h.bounded
    have hlimit := (of_decide_eq_true hfull).1
    cases hframes : a.frames with
    | nil =>
      rw [hframes] at hf
      cases hf
    | cons best rest =>
      rw [hframes] at hf
      obtain rfl := Option.some.inj hf
      exact ⟨Option.isNone_iff_eq_none.1 hnew, Nat.le_antisymm hle hlimit, leastRecent_mem rest best,
        leastRecent_le rest best⟩
  · cases hf

/-! ## Calls -/

/-- A packet, and what others have made of the pool and of the cipher by the time it is processed.  They may have done
anything, but a pool has never lent more than its limit. -/
structure Call where
  packet : Rtp.Packet
  pool : Pool
  cipher : Cipher
  bounded : pool.outstanding ≤ pool.limit

/-- The assembler as a call meets it. -/
def met (a : Assembler) (c : Call) : Assembler := { a with pool := c.pool, cipher := c.cipher }

def answer (a : Assembler) (c : Call) : Except Fault (Option AccessUnit) := ((a.met c).process c.packet).2

def next (a : Assembler) (c : Call) : Assembler := ((a.met c).process c.packet).1

def after (a : Assembler) (calls : List Call) : Assembler := calls.foldl next a

def answers : Assembler → List Call → List (Except Fault (Option AccessUnit))
  | _, [] => []
  | a, c :: rest => a.answer c :: (a.next c).answers rest

theorem Tidy.met {a : Assembler} (h : a.Tidy) (c : Call) : (a.met c).Tidy := ⟨h.limit_pos, h.bounded, h.nodup⟩

theorem Tidy.next {a : Assembler} (h : a.Tidy) (c : Call) : (a.next c).Tidy := ((h.met c).process c.packet).1

theorem Tidy.after : ∀ (calls : List Call) {a : Assembler}, a.Tidy → (a.after calls).Tidy
  | [], _, h => h
  | c :: rest, _, h => Tidy.after rest (h.next c)

theorem limit_after : ∀ (calls : List Call) (a : Assembler), (a.after calls).limit = a.limit
  | [], _ => rfl
  | c :: rest, a => (limit_after rest (a.next c)).trans (process_keeps (a.met c) c.packet).2.1

end Assembler
end VideoTransport
