import VideoTransport.Inbound.Assembler
import VideoTransport.Proofs.Fragmentation
/-!
# Assembly — what one packet does to an assembler

A packet either goes on with the frame that was touched last (`process_known`) or begins a frame of its own, for which
room is made first (`process_fresh`).  Either way the frame hears the payload and, if the packet has the marker, is
concluded: it leaves the table, as a unit if it is finished and the pool has a buffer for it (`finish_unfinished`,
`finish_lent`, `finish_exhausted`).
-/
namespace VideoTransport

/-! ## Items with keys of their own -/

section Keys

variable {α κ : Type} [DecidableEq κ] {key : α → κ}

theorem filter_key_between {before after : List α} {x : α} (hn : ((before ++ x :: after).map key).Nodup) :
    (before ++ x :: after).filter (key · ≠ key x) = before ++ after := by
  simp only [List.map_append, List.map_cons, List.nodup_append, List.nodup_cons, List.mem_cons] at hn
  obtain ⟨-, ⟨hafter, -⟩, hbefore⟩ := hn
  have h1 : before.filter (fun y => decide (key y ≠ key x)) = before :=
    List.filter_eq_self.2 fun y hy => decide_eq_true (hbefore _ (List.mem_map_of_mem hy) _ (.inl rfl))
  have h2 : after.filter (fun y => decide (key y ≠ key x)) = after :=
    List.filter_eq_self.2 fun y hy => decide_eq_true fun h => hafter (h ▸ List.mem_map_of_mem hy)
  rw [List.filter_append, List.filter_cons_of_neg (by simp), h1, h2]

/-- A key takes out one item. -/
theorem length_filter_key {items : List α} (hn : (items.map key).Nodup) {x : α} (hx : x ∈ items) :
    (items.filter (key · ≠ key x)).length + 1 = items.length := by
  obtain ⟨before, after, rfl⟩ := List.append_of_mem hx
  rw [filter_key_between hn, List.length_append, List.length_append, List.length_cons, Nat.add_assoc]

end Keys

/-! ## Finished frames -/

namespace AnnexB

theorem opensWithStartCode_join {nals : List Bytes} (h : nals ≠ []) : opensWithStartCode (join nals) = true := by
  cases nals with
  | nil => exact absurd rfl h
  | cons nal rest => rfl

end AnnexB

/-- The access unit that NAL units are put together to. -/
def AccessUnit.assembled (timestamp : UInt32) (nals : List Bytes) : AccessUnit :=
  ⟨⟨some (AnnexB.join nals)⟩, nals.any Nal.isRefresh, timestamp, 0⟩

theorem AccessUnit.ofBuffer_join {nals : List Bytes} (h : nals ≠ []) (timestamp : UInt32) :
    ofBuffer (Buffer.append {} (AnnexB.join nals)) (nals.any Nal.isRefresh) timestamp 0 =
      .ok (assembled timestamp nals) := if_pos (AnnexB.opensWithStartCode_join h)

namespace Pool

def HasRoom (p : Pool) : Prop := p.outstanding < p.limit

instance (p : Pool) : Decidable p.HasRoom := inferInstanceAs (Decidable (_ < _))

def lend (p : Pool) : Pool := { p with outstanding := p.outstanding + 1, shelf := p.shelf.tail }

/-- Whatever a buffer held before, it is empty when it is lent. -/
theorem acquire_of_room {p : Pool} (h : p.HasRoom) : p.acquire = .ok ({}, p.lend) := if_pos h

theorem acquire_of_full {p : Pool} (h : ¬p.HasRoom) : p.acquire = .error (.poolExhausted p.limit) := if_neg h

/-- The unit that comes out when one is due. -/
def granted (p : Pool) (due : Option AccessUnit) : Option AccessUnit := if p.HasRoom then due else none

/-- What an assembler answers when a unit is due. -/
def grant (p : Pool) : Option AccessUnit → Except Fault (Option AccessUnit)
  | none => .ok none
  | some u => if p.HasRoom then .ok (some u) else .error (.poolExhausted p.limit)

@[simp] theorem granted_none (p : Pool) : p.granted none = none := ite_self none

theorem granted_of_room {p : Pool} (h : p.HasRoom) (due : Option AccessUnit) : p.granted due = due := if_pos h

theorem granted_of_full {p : Pool} (h : ¬p.HasRoom) (due : Option AccessUnit) : p.granted due = none := if_neg h

end Pool

namespace FrameContent

def unit? (c : FrameContent) (timestamp : UInt32) : Option AccessUnit :=
  c.finished?.map (AccessUnit.assembled timestamp)

theorem finished?_ne_nil {c : FrameContent} {nals : List Bytes} (h : c.finished? = some nals) : nals ≠ [] := by
  unfold finished? at h
  split at h
  · cases h
  · cases h
  · cases h
  · rename_i hn
    obtain rfl := Option.some.inj h
    exact fun h0 => hn (List.reverse_eq_nil_iff.1 h0)

@[simp] theorem unit?_broken (timestamp : UInt32) : broken.unit? timestamp = none := rfl

theorem finished?_intact {nals : List Bytes} (h : nals ≠ []) : (intact nals.reverse none).finished? = some nals := by
  unfold finished?
  split
  · rename_i he
    cases he
  · rename_i he
    cases he
  · rename_i he
    exact absurd (List.reverse_eq_nil_iff.1 (FrameContent.intact.inj he).1) h
  · rename_i he
    rw [← (FrameContent.intact.inj he).1, List.reverse_reverse]

theorem finished?_eq_some_iff {c : FrameContent} {nals : List Bytes} :
    c.finished? = some nals ↔ nals ≠ [] ∧ c = .intact nals.reverse none := by
  constructor
  · intro h
    refine ⟨finished?_ne_nil h, ?_⟩
    unfold finished? at h
    split at h
    · cases h
    · cases h
    · cases h
    · rw [← Option.some.inj h, List.reverse_reverse]
  · rintro ⟨hne, rfl⟩
    exact finished?_intact hne

end FrameContent

/-- The unit that is due when a frame has heard a packet: with the marker, the one that the frame holds. -/
def Frame.due (f : Frame) (marker : Bool) : Option AccessUnit := if marker then f.content.unit? f.timestamp else none

namespace Assembler

open FrameContent (hear)

theorem finish_unfinished {a : Assembler} {f : Frame} (h : f.content.unit? f.timestamp = none) :
    a.finish f =
      ({ a with
          frames := remove f.timestamp a.frames
          stats := { a.stats with dropped := a.stats.dropped + 1 } }, .ok none) := by
  rw [finish, Option.map_eq_none_iff.1 h]

theorem finish_lent {a : Assembler} {f : Frame} {u : AccessUnit} (h : f.content.unit? f.timestamp = some u)
    (hroom : a.pool.HasRoom) :
    a.finish f =
      ({ a with
          frames := remove f.timestamp a.frames
          pool := a.pool.lend
          stats := { a.stats with completed := a.stats.completed + 1 } }, .ok (some u)) := by
  obtain ⟨nals, hn, rfl⟩ := Option.map_eq_some_iff.1 h
  have hopen := AccessUnit.ofBuffer_join (FrameContent.finished?_ne_nil hn) f.timestamp
  rw [finish, hn]
  simp only [Pool.acquire_of_room hroom, hopen]

theorem finish_exhausted {a : Assembler} {f : Frame} {u : AccessUnit} (h : f.content.unit? f.timestamp = some u)
    (hroom : ¬a.pool.HasRoom) :
    a.finish f =
      ({ a with frames := remove f.timestamp a.frames }, .error (.poolExhausted a.pool.limit)) := by
  obtain ⟨nals, hn, rfl⟩ := Option.map_eq_some_iff.1 h
  rw [finish, hn, Pool.acquire_of_full hroom]

/-- The answer of a frame's end, and the pool after it. -/
theorem finish_answer (a : Assembler) (f : Frame) :
    (a.finish f).2 = a.pool.grant (f.content.unit? f.timestamp) ∧
      (a.finish f).1.pool =
        if (a.pool.granted (f.content.unit? f.timestamp)).isSome then a.pool.lend else a.pool := by
  cases hu : f.content.unit? f.timestamp with
  | none =>
    rw [finish_unfinished hu, Pool.granted_none]
    exact ⟨rfl, rfl⟩
  | some u =>
    by_cases hroom : a.pool.HasRoom
    · rw [finish_lent hu hroom, Pool.granted_of_room hroom, Pool.grant, if_pos hroom]
      exact ⟨rfl, rfl⟩
    · rw [finish_exhausted hu hroom, Pool.granted_of_full hroom, Pool.grant, if_neg hroom]
      exact ⟨rfl, rfl⟩

/-! ## The table of frames -/

theorem remove_append_self {older : List Frame} {f : Frame} (h : ∀ g ∈ older, g.timestamp ≠ f.timestamp) :
    remove f.timestamp (older ++ [f]) = older := by
  rw [remove, List.filter_append, List.filter_eq_self.2 (fun g hg => decide_eq_true (h g hg))]
  simp

theorem replace_append_self {older : List Frame} {f g : Frame} (hf : f.timestamp = g.timestamp)
    (h : ∀ e ∈ older, e.timestamp ≠ g.timestamp) : replace g (older ++ [f]) = older ++ [g] := by
  have hmap : older.map (fun e => if e.timestamp = g.timestamp then g else e) = older :=
    (List.map_congr_left fun e he => if_neg (h e he)).trans (List.map_id' older)
  rw [replace, List.map_append, hmap, List.map_cons, List.map_nil, if_pos hf]

theorem find?_eq_none {a : Assembler} {timestamp : UInt32} (h : ∀ g ∈ a.frames, g.timestamp ≠ timestamp) :
    a.find? timestamp = none :=
  List.find?_eq_none.2 fun g hg hd => h g hg (of_decide_eq_true hd)

theorem of_find?_eq_some {a : Assembler} {timestamp : UInt32} {f : Frame} (h : a.find? timestamp = some f) :
    f ∈ a.frames ∧ f.timestamp = timestamp :=
  ⟨List.mem_of_find?_eq_some h,
    of_decide_eq_true (List.find?_some (p := fun g : Frame => decide (g.timestamp = timestamp)) h)⟩

theorem find?_append_self {a : Assembler} {older : List Frame} {f : Frame} (ha : a.frames = older ++ [f])
    (h : ∀ g ∈ older, g.timestamp ≠ f.timestamp) : a.find? f.timestamp = some f := by
  have hnone : older.find? (·.timestamp = f.timestamp) = none :=
    List.find?_eq_none.2 fun g hg hd => h g hg (of_decide_eq_true hd)
  rw [find?, ha, List.find?_append, hnone]
  simp

theorem leastRecent_mem : ∀ (frames : List Frame) (best : Frame), leastRecent best frames ∈ best :: frames
  | [], _ => List.mem_cons_self
  | f :: rest, best => by
    rw [leastRecent, List.foldl_cons]
    split
    · exact List.mem_cons_of_mem best (leastRecent_mem rest f)
    · rcases List.mem_cons.1 (leastRecent_mem rest best) with h | h
      · exact List.mem_cons.2 (.inl h)
      · exact List.mem_cons_of_mem best (List.mem_cons_of_mem f h)

theorem remove_between {before after : List Frame} {f : Frame}
    (hn : ((before ++ f :: after).map (·.timestamp)).Nodup) :
    remove f.timestamp (before ++ f :: after) = before ++ after := filter_key_between hn

/-- Giving up the least recent frame takes one frame out of a table without doubles. -/
theorem length_remove_leastRecent {f : Frame} {rest : List Frame}
    (hn : ((f :: rest).map (·.timestamp)).Nodup) :
    (remove (leastRecent f rest).timestamp (f :: rest)).length + 1 = (f :: rest).length :=
  length_filter_key hn (leastRecent_mem rest f)

/-- The frames that are left when the least recent one is given up. -/
def withoutLeast : List Frame → List Frame
  | [] => []
  | f :: rest => remove (leastRecent f rest).timestamp (f :: rest)

theorem withoutLeast_sublist : ∀ frames : List Frame, (withoutLeast frames).Sublist frames
  | [] => List.Sublist.refl []
  | _ :: _ => List.filter_sublist

/-- The frames that are kept when room is made for one more. -/
def spared (a : Assembler) : List Frame := if a.limit ≤ a.pending then withoutLeast a.frames else a.frames

theorem spared_sublist (a : Assembler) : a.spared.Sublist a.frames := by
  unfold spared
  split
  · exact withoutLeast_sublist a.frames
  · exact List.Sublist.refl _

/-- Making room spares some of the frames and counts the others. -/
theorem evict_eq (a : Assembler) (hn : (a.frames.map (·.timestamp)).Nodup) :
    (if a.limit ≤ a.frames.length then a.evict else a) =
      { a with
        frames := a.spared
        stats := { a.stats with dropped := a.stats.dropped + (a.pending - a.spared.length) } } := by
  unfold spared pending
  by_cases hl : a.limit ≤ a.frames.length
  · rw [if_pos hl, if_pos hl, evict]
    split
    · rename_i hf
      simp only [hf, withoutLeast, List.length_nil, Nat.sub_self, Nat.add_zero]
      rw [← hf]
    · rename_i f rest hf
      rw [hf] at hn
      have hlen := length_remove_leastRecent hn
      have hone : (f :: rest).length - (remove (leastRecent f rest).timestamp (f :: rest)).length = 1 := by omega
      simp only [hf, withoutLeast, hone]
  · rw [if_neg hl, if_neg hl, Nat.sub_self]
    rfl

theorem touch_of_some {a : Assembler} {timestamp : UInt32} {s : Serial} {f : Frame}
    (h : a.find? timestamp = some f) :
    a.touch timestamp s =
      (⟨f.timestamp, if s = f.lastSequence + 1 then f.content else .broken, s, a.clock + 1⟩,
        { a with clock := a.clock + 1, lastSequence := some s }) := by
  have hf : ({ a with clock := a.clock + 1, lastSequence := some s } : Assembler).find? timestamp = some f := h
  rw [touch, hf]

/-- The frame that begins with packet number `s`. -/
def begun (a : Assembler) (timestamp : UInt32) (s : Serial) : Frame :=
  ⟨timestamp, if followsOn a.lastSequence s then .intact [] none else .broken, s, a.clock + 1⟩

theorem touch_of_none {a : Assembler} {timestamp : UInt32} {s : Serial} (h : a.find? timestamp = none)
    (hn : (a.frames.map (·.timestamp)).Nodup) :
    a.touch timestamp s =
      (a.begun timestamp s,
        { a with
          clock := a.clock + 1
          lastSequence := some s
          frames := a.spared ++ [a.begun timestamp s]
          stats := { a.stats with dropped := a.stats.dropped + (a.pending - a.spared.length) } }) := by
  have hf : ({ a with clock := a.clock + 1, lastSequence := some s } : Assembler).find? timestamp = none := h
  have hroom := evict_eq { a with clock := a.clock + 1, lastSequence := some s } hn
  rw [touch, hf]
  simp only [hroom]
  rfl

/-! ## One packet -/

/-- What a frame holds once it has heard a packet; one that cannot be decrypted or read breaks it. -/
def heard (a : Assembler) (p : Rtp.Packet) (content : FrameContent) : FrameContent :=
  match a.cipher.decrypt p.header.packetMeta p.payload with
  | .error _ => .broken
  | .ok data => content.hear data

/-- The assembler that has counted a packet and given up `n` frames before it. -/
def noted (a : Assembler) (p : Rtp.Packet) (n : Nat) : Assembler :=
  { a with
    clock := a.clock + 1
    lastSequence := some p.header.sequence
    stats :=
      { a.stats with
        dropped := a.stats.dropped + n
        malformed := a.stats.malformed + if (a.open? p).isSome then 0 else 1 } }

/-- What becomes of a frame that has heard its latest packet, behind older frames: with the marker, it ends. -/
def conclude (a : Assembler) (older : List Frame) (f : Frame) (marker : Bool) :
    Assembler × Except Fault (Option AccessUnit) :=
  if marker then { a with frames := older ++ [f] }.finish f else ({ a with frames := older ++ [f] }, .ok none)

/-- Between finding the frame of a packet and ending it, the frame hears the packet. -/
theorem process_of_touch {a : Assembler} {p : Rtp.Packet} {older : List Frame} {f g : Frame} {n : Nat}
    (ht : a.touch p.header.timestamp p.header.sequence =
      (f, { a with
        clock := a.clock + 1
        lastSequence := some p.header.sequence
        frames := older ++ [g]
        stats := { a.stats with dropped := a.stats.dropped + n } }))
    (hg : g.timestamp = f.timestamp) (hold : ∀ e ∈ older, e.timestamp ≠ f.timestamp) :
    a.process p = (a.noted p n).conclude older { f with content := a.heard p f.content } p.header.marker := by
  have hr : ∀ content, replace { f with content } (older ++ [g]) = older ++ [{ f with content }] :=
    fun content => replace_append_self hg hold
  unfold process heard conclude noted open?
  rw [ht]
  cases hd : a.cipher.decrypt p.header.packetMeta p.payload with
  | error text => simp only [hd, hr, Option.isSome_none, Bool.false_eq_true, if_false]
  | ok data =>
    cases hread : Payload.read data with
    | error reason =>
      simp only [hd, FrameContent.hear, hread, Except.toOption, hr, Option.isSome_none, Bool.false_eq_true, if_false]
    | ok payload =>
      simp only [hd, FrameContent.hear, hread, Except.toOption, hr, Option.isSome_some, if_true, Nat.add_zero]

/-- **A packet of the frame that was touched last** leaves the other frames alone, and breaks its frame unless it is the
next packet. -/
theorem process_known {a : Assembler} {p : Rtp.Packet} {older : List Frame} {f : Frame} (ha : a.frames = older ++ [f])
    (hp : p.header.timestamp = f.timestamp) (hold : ∀ e ∈ older, e.timestamp ≠ f.timestamp) :
    a.process p = (a.noted p 0).conclude older
      ⟨f.timestamp, a.heard p (if p.header.sequence = f.lastSequence + 1 then f.content else .broken),
        p.header.sequence, a.clock + 1⟩ p.header.marker := by
  have ht : a.touch p.header.timestamp p.header.sequence = _ := touch_of_some (hp ▸ find?_append_self ha hold)
  rw [ha] at ht
  exact process_of_touch (n := 0) ht rfl hold

/-- **A packet with a new timestamp** begins a frame, for which room is made; the frame is broken from the start unless
the packet follows on the one before it. -/
theorem process_begins {a : Assembler} {p : Rtp.Packet} (ha : ∀ e ∈ a.frames, e.timestamp ≠ p.header.timestamp)
    (hn : (a.frames.map (·.timestamp)).Nodup) :
    a.process p = (a.noted p (a.pending - a.spared.length)).conclude a.spared
      ⟨p.header.timestamp,
        a.heard p (if followsOn a.lastSequence p.header.sequence then .intact [] none else .broken),
        p.header.sequence, a.clock + 1⟩ p.header.marker :=
  process_of_touch (touch_of_none (find?_eq_none ha) hn) rfl fun e he => ha e (a.spared_sublist.subset he)

/-- Of the frames before a packet with a new timestamp some are kept and the others counted. -/
theorem process_fresh {a : Assembler} {p : Rtp.Packet} (ha : ∀ e ∈ a.frames, e.timestamp ≠ p.header.timestamp)
    (hn : (a.frames.map (·.timestamp)).Nodup) : ∃ kept n,
    kept.Sublist a.frames ∧ n + kept.length = a.frames.length ∧
      a.process p = (a.noted p n).conclude kept
        ⟨p.header.timestamp,
          a.heard p (if followsOn a.lastSequence p.header.sequence then .intact [] none else .broken),
          p.header.sequence, a.clock + 1⟩ p.header.marker :=
  ⟨a.spared, a.pending - a.spared.length, a.spared_sublist, Nat.sub_add_cancel a.spared_sublist.length_le,
    process_begins ha hn⟩

/-! ## What is left after a packet -/

/-- What a packet has made of an assembler whose frames are `older` ones and `f`: `f` has gone if the packet had the
marker, and the unit that was due has come out if the pool had a buffer for it. -/
structure Concluded (a : Assembler) (older : List Frame) (f : Frame) (marker : Bool) (b : Assembler)
    (outcome : Except Fault (Option AccessUnit)) : Prop where
  frames : b.frames = older ++ if marker then [] else [f]
  cipher : b.cipher = a.cipher
  lastSequence : b.lastSequence = a.lastSequence
  outcome : outcome = a.pool.grant (f.due marker)
  pool : b.pool = if (a.pool.granted (f.due marker)).isSome then a.pool.lend else a.pool
  completed : b.stats.completed = a.stats.completed + if (a.pool.granted (f.due marker)).isSome then 1 else 0
  dropped : b.stats.dropped = a.stats.dropped + if marker && (f.due marker).isNone then 1 else 0

theorem concluded (a : Assembler) {older : List Frame} {f : Frame} (hold : ∀ e ∈ older, e.timestamp ≠ f.timestamp)
    (marker : Bool) :
    Concluded a older f marker (a.conclude older f marker).1 (a.conclude older f marker).2 := by
  cases marker with
  | false =>
    have hg : a.pool.granted (f.due false) = none := Pool.granted_none _
    refine ⟨rfl, rfl, rfl, rfl, ?_, ?_, rfl⟩ <;> rw [hg] <;> rfl
  | true =>
    have hr : remove f.timestamp (older ++ [f]) = older ++ [] :=
      (remove_append_self hold).trans (List.append_nil older).symm
    have hd : f.due true = f.content.unit? f.timestamp := rfl
    cases hu : f.content.unit? f.timestamp with
    | none =>
      have he : a.conclude older f true = _ := finish_unfinished (a := { a with frames := older ++ [f] }) hu
      have hg : a.pool.granted (f.due true) = none := by rw [hd, hu, Pool.granted_none]
      rw [he]
      refine ⟨hr, rfl, rfl, ?_, ?_, ?_, ?_⟩
      · rw [hd, hu]
        rfl
      · rw [hg]
        rfl
      · rw [hg]
        rfl
      · rw [hd, hu]
        rfl
    | some u =>
      by_cases hroom : a.pool.HasRoom
      · have he : a.conclude older f true = _ := finish_lent (a := { a with frames := older ++ [f] }) hu hroom
        have hg : a.pool.granted (f.due true) = some u := by rw [hd, hu, Pool.granted_of_room hroom]
        rw [he]
        refine ⟨hr, rfl, rfl, ?_, ?_, ?_, ?_⟩
        · rw [hd, hu]
          exact (if_pos hroom).symm
        · rw [hg]
          rfl
        · rw [hg]
          rfl
        · rw [hd, hu]
          rfl
      · have he : a.conclude older f true = _ := finish_exhausted (a := { a with frames := older ++ [f] }) hu hroom
        have hg : a.pool.granted (f.due true) = none := Pool.granted_of_full hroom _
        rw [he]
        refine ⟨hr, rfl, rfl, ?_, ?_, ?_, ?_⟩
        · rw [hd, hu]
          exact (if_neg hroom).symm
        · rw [hg]
          rfl
        · rw [hg]
          rfl
        · rw [hd, hu]
          rfl

end Assembler
end VideoTransport
