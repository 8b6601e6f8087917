import Mathlib.Data.List.AList
import Mathlib.Data.List.MinMax
import VideoTransport.Proofs.Recency
import VideoTransport.Proofs.Slab
/-!
# Arena — the frames of an assembler in a slab

The frames in the making lie in a slab, and an index leads from their times to their keys.  A frame comes into both and
leaves both, whether it is given up, comes out or is lost for want of a buffer, so that a key that has been used again
never leads from one time to the frame of another.  Coming to the slab with a key under which there is nothing would end
the program; here it is `none`, and it does not occur.
-/
namespace VideoTransport

/-- An assembler whose frames lie in a slab. -/
structure Arena (σ : Type) where
  cipher : Cipher
  pool : Pool
  limit : Nat
  slab : σ
  /-- The key of each time. -/
  index : AList fun _ : UInt32 => Nat
  clock : Nat := 0
  lastSequence : Option Serial := none
  stats : AssemblerStats := {}

namespace Arena

variable {σ : Type} (S : Slab Frame σ)

def create (cipher : Cipher) (pool : Pool) (limit : Nat) : Arena σ :=
  { cipher, pool, limit := max limit 1, slab := S.withCapacity (max limit 1), index := ∅ }

/-- Give up the frame that was touched least recently. -/
def evict (x : Arena σ) : Option (Arena σ) :=
  match (S.entries x.slab).argmin (·.2.lastUsed) with
  | none => some x
  | some (k, _) => do
    let (f, slab) ← S.take? x.slab k
    some { x with
      slab
      index := x.index.erase f.timestamp
      stats := { x.stats with dropped := x.stats.dropped + 1 } }

def makeRoom (x : Arena σ) : Option (Arena σ) := if x.limit ≤ S.size x.slab then x.evict S else some x

/-- The arena that has counted packet number `s`. -/
def counted (x : Arena σ) (s : Serial) : Arena σ := { x with clock := x.clock + 1, lastSequence := some s }

/-- Count the packet and find the key of its frame, or begin the frame. -/
def locate (x : Arena σ) (timestamp : UInt32) (s : Serial) : Option (Nat × Arena σ) :=
  match x.index.lookup timestamp with
  | some k => do
    let f ← S.get? x.slab k
    let content := if s = f.lastSequence + 1 then f.content else .broken
    some (k, { x.counted s with
      slab := S.set x.slab k { f with content, lastSequence := s, lastUsed := x.clock + 1 } })
  | none => do
    let y ← (x.counted s).makeRoom S
    let content := if Assembler.followsOn x.lastSequence s then .intact [] none else .broken
    let (k, slab) := S.insert y.slab ⟨timestamp, content, s, x.clock + 1⟩
    some (k, { y with slab, index := y.index.insert timestamp k })

/-- End the frame under a key. -/
def finalize (x : Arena σ) (k : Nat) : Option (Arena σ × Except Fault (Option AccessUnit)) := do
  let (f, slab) ← S.take? x.slab k
  let x := { x with slab, index := x.index.erase f.timestamp }
  match f.content.finished? with
  | none => some ({ x with stats := { x.stats with dropped := x.stats.dropped + 1 } }, .ok none)
  | some nals =>
    match x.pool.acquire with
    | .error fault => some (x, .error fault)
    | .ok (buffer, pool) =>
      let filled := buffer.append (AnnexB.join nals)
      match AccessUnit.ofBuffer filled (nals.any Nal.isRefresh) f.timestamp 0 with
      | .error fault => some ({ x with pool := (filled.release pool).2.2 }, .error fault)
      | .ok unit =>
        some ({ x with pool, stats := { x.stats with completed := x.stats.completed + 1 } }, .ok (some unit))

def open? (x : Arena σ) (p : Rtp.Packet) : Option Payload :=
  match x.cipher.decrypt p.header.packetMeta p.payload with
  | .error _ => none
  | .ok data => (Payload.read data).toOption

/-- What a frame holds once it has heard a packet, and whether the packet counts as malformed. -/
def hear (x : Arena σ) (p : Rtp.Packet) (content : FrameContent) : FrameContent × Nat :=
  match x.open? p with
  | none => (.broken, 1)
  | some payload => (content.add payload, 0)

def process (x : Arena σ) (p : Rtp.Packet) : Option (Arena σ × Except Fault (Option AccessUnit)) := do
  let (k, x) ← x.locate S p.header.timestamp p.header.sequence
  let f ← S.get? x.slab k
  let (content, unread) := x.hear p f.content
  let x := { x with
    slab := S.set x.slab k { f with content }
    stats := { x.stats with malformed := x.stats.malformed + unread } }
  if p.header.marker then x.finalize S k else some (x, .ok none)

/-! ## Slab and index -/

/-- Slab and index hold the frames of a table: the index leads from each time of the table to its frame in the slab, and
from the time of each frame in the slab to the frame. -/
structure Holds (slab : σ) (index : AList fun _ : UInt32 => Nat) (table : UInt32 → Option Frame) : Prop where
  found : ∀ {time k}, index.lookup time = some k → ∃ f, S.get? slab k = some f ∧ table time = some f
  absent : ∀ {time}, index.lookup time = none → table time = none
  stored : ∀ {k f}, S.get? slab k = some f → index.lookup f.timestamp = some k
  named : ∀ {time f}, table time = some f → f.timestamp = time

namespace Holds

variable {S} {slab : σ} {index : AList fun _ : UInt32 => Nat} {table : UInt32 → Option Frame} {time : UInt32} {k : Nat}

theorem lookup_eq_none (h : Holds S slab index table) (hnew : table time = none) : index.lookup time = none := by
  cases hk : index.lookup time with
  | none => rfl
  | some k =>
    obtain ⟨f, -, hf⟩ := h.found hk
    rw [hnew] at hf
    cases hf

theorem table_eq (h : Holds S slab index table) (time : UInt32) :
    table time = (index.lookup time).bind (S.get? slab) := by
  cases hk : index.lookup time with
  | none => exact h.absent hk
  | some k =>
    obtain ⟨f, hget, hf⟩ := h.found hk
    rw [hf, Option.bind_some, hget]

theorem lookup_of_table (h : Holds S slab index table) {f : Frame} (hf : table time = some f) : ∃ k,
    index.lookup time = some k ∧ S.get? slab k = some f := by
  rw [h.table_eq, Option.bind_eq_some_iff] at hf
  exact hf

/-- What lies under a key is the frame of the time that leads there. -/
theorem table_of_get? (h : Holds S slab index table) {f : Frame} (hget : S.get? slab k = some f) :
    table f.timestamp = some f := by
  rw [h.table_eq, h.stored hget, Option.bind_some, hget]

theorem key_ne (h : Holds S slab index table) {other : UInt32} {j : Nat} (hk : index.lookup time = some k)
    (hj : index.lookup other = some j) (hne : other ≠ time) : j ≠ k := by
  rintro rfl
  obtain ⟨f, hget, hf⟩ := h.found hk
  obtain ⟨g, hget', hg⟩ := h.found hj
  rw [hget] at hget'
  obtain rfl := Option.some.inj hget'
  exact hne ((h.named hg).symm.trans (h.named hf))

/-- A change that concerns one time alone. -/
theorem change (h : Holds S slab index table) {slab' : σ} {index' : AList fun _ : UInt32 => Nat} {o : Option Frame}
    (hother : ∀ t ≠ time, index'.lookup t = index.lookup t)
    (hkept : ∀ t ≠ time, ∀ j, index.lookup t = some j → S.get? slab' j = S.get? slab j)
    (hown : (index'.lookup time = none ∧ o = none) ∨
      ∃ k f, index'.lookup time = some k ∧ S.get? slab' k = some f ∧ o = some f ∧ f.timestamp = time)
    (hstored : ∀ j f, S.get? slab' j = some f → index'.lookup f.timestamp = some j) :
    Holds S slab' index' fun t => if t = time then o else table t := by
  refine ⟨fun {t j} hj => ?_, fun {t} ht => ?_, fun {j f} => hstored j f, fun {t f} hf => ?_⟩
  · by_cases ht : t = time
    · rw [if_pos ht]
      rw [ht] at hj
      rcases hown with ⟨hnone, -⟩ | ⟨k, f, hk, hget, ho, -⟩
      · rw [hnone] at hj
        cases hj
      · rw [hk] at hj
        obtain rfl := Option.some.inj hj
        exact ⟨f, hget, ho⟩
    · rw [hother t ht] at hj
      obtain ⟨f, hget, hf⟩ := h.found hj
      exact ⟨f, by rw [hkept t ht j hj, hget], (if_neg ht).trans hf⟩
  · by_cases htime : t = time
    · rw [if_pos htime]
      rw [htime] at ht
      rcases hown with ⟨-, ho⟩ | ⟨k, f, hk, -⟩
      · exact ho
      · rw [hk] at ht
        cases ht
    · rw [hother t htime] at ht
      exact (if_neg htime).trans (h.absent ht)
  · by_cases ht : t = time
    · rw [if_pos ht] at hf
      rcases hown with ⟨-, ho⟩ | ⟨k, g, -, -, ho, hg⟩
      · rw [ho] at hf
        cases hf
      · rw [ho] at hf
        obtain rfl := Option.some.inj hf
        exact hg.trans ht.symm
    · rw [if_neg ht] at hf
      exact h.named hf

/-- **A new frame** comes into slab and index. -/
theorem insert (hS : S.IsLawful) (h : Holds S slab index table) (hnew : table time = none) {f : Frame}
    (hf : f.timestamp = time) : Holds S (S.insert slab f).2 (index.insert time (S.insert slab f).1)
      fun t => if t = time then some f else table t := by
  have hlookup := h.lookup_eq_none hnew
  have hget := hS.get?_insert slab f
  have hvacant := hS.get?_insert_key slab f
  refine h.change (fun t ht => AList.lookup_insert_ne ht) (fun t _ j hj => ?_)
    (.inr ⟨_, f, AList.lookup_insert index, by rw [hget, if_pos rfl], rfl, hf⟩) fun j g hg => ?_
  · have hne : j ≠ (S.insert slab f).1 := by
      rintro rfl
      obtain ⟨g, hg, -⟩ := h.found hj
      rw [hvacant] at hg
      cases hg
    rw [hget, if_neg hne]
  · rw [hget] at hg
    split at hg
    · rename_i hj
      obtain rfl := Option.some.inj hg
      rw [hf, AList.lookup_insert, hj]
    · have hstored := h.stored hg
      have hne : g.timestamp ≠ time := by
        intro heq
        rw [heq, hlookup] at hstored
        cases hstored
      rw [AList.lookup_insert_ne hne, hstored]

/-- **A frame that changes** stays under its key. -/
theorem set (hS : S.IsLawful) (h : Holds S slab index table) (hk : index.lookup time = some k) {f : Frame}
    (hf : f.timestamp = time) : Holds S (S.set slab k f) index fun t => if t = time then some f else table t := by
  obtain ⟨old, hold, -⟩ := h.found hk
  have hget := hS.get?_set hold f
  refine h.change (fun _ _ => rfl) (fun t ht j hj => ?_) (.inr ⟨k, f, hk, by rw [hget, if_pos rfl], rfl, hf⟩)
    fun j g hg => ?_
  · rw [hget, if_neg (h.key_ne hk hj ht)]
  · rw [hget] at hg
    split at hg
    · rename_i hj
      obtain rfl := Option.some.inj hg
      rw [hf, hk, hj]
    · exact h.stored hg

/-- **A frame that is taken out** of the slab leaves the index by its own time. -/
theorem take (hS : S.IsLawful) (h : Holds S slab index table) {f : Frame} (hf : table time = some f)
    (hk : index.lookup time = some k) : ∃ slab', S.take? slab k = some (f, slab') ∧
      Holds S slab' (index.erase f.timestamp) fun t => if t = time then none else table t := by
  obtain ⟨g, hgetk, hg⟩ := h.found hk
  obtain rfl : g = f := Option.some.inj (hg.symm.trans hf)
  obtain ⟨slab', htake, hget⟩ := hS.take?_of_get? hgetk
  refine ⟨slab', htake, ?_⟩
  rw [h.named hf]
  refine h.change (fun t ht => AList.lookup_erase_ne ht) (fun t ht j hj => ?_) (.inl ⟨AList.lookup_erase _ _, rfl⟩)
    fun j e he => ?_
  · rw [hget, if_neg (h.key_ne hk hj ht)]
  · rw [hget] at he
    split at he
    · cases he
    · rename_i hj
      have hstored := h.stored he
      have hne : e.timestamp ≠ time := by
        intro heq
        rw [heq, hk] at hstored
        exact hj (Option.some.inj hstored).symm
      rw [AList.lookup_erase_ne hne, hstored]

end Holds

/-! ## One packet -/

/-- An arena keeps beside its frames what an assembler does. -/
structure Books (x : Arena σ) (a : Assembler) : Prop where
  cipher : x.cipher = a.cipher
  pool : x.pool = a.pool
  limit : x.limit = a.limit
  clock : x.clock = a.clock
  lastSequence : x.lastSequence = a.lastSequence
  stats : x.stats = a.stats

/-- An arena and an assembler with the same frames in the making. -/
structure Mirrors (x : Arena σ) (a : Assembler) : Prop extends Books x a where
  holds : Holds S x.slab x.index a.find?

variable {S} {x : Arena σ} {a : Assembler}

open Assembler (Remembers rank_of_find? of_find?_eq_some)

theorem Holds.size_eq {slab : σ} {index : AList fun _ : UInt32 => Nat} (hS : S.IsLawful)
    (h : Holds S slab index a.find?) (ht : a.Tidy) : S.size slab = a.pending := by
  let times := (S.entries slab).map fun e => e.2.timestamp
  have hkeys : times.map index.lookup = ((S.entries slab).map Prod.fst).map some := by
    rw [List.map_map, List.map_map]
    exact List.map_congr_left fun e he => h.stored (hS.mem_entries.1 he)
  have hnodup : times.Nodup := by
    refine List.Nodup.of_map index.lookup ?_
    rw [hkeys]
    exact (hS.nodup_entries slab).map (Option.some_injective _)
  have hperm : times.Perm (a.frames.map (·.timestamp)) := by
    refine (List.perm_ext_iff_of_nodup hnodup ht.nodup).2 fun t => ?_
    rw [List.mem_map, List.mem_map]
    constructor
    · rintro ⟨⟨k, f⟩, he, rfl⟩
      exact ⟨f, (of_find?_eq_some (h.table_of_get? (hS.mem_entries.1 he))).1, rfl⟩
    · rintro ⟨f, hf, rfl⟩
      obtain ⟨k, -, hget⟩ := h.lookup_of_table (ht.find?_of_mem hf)
      exact ⟨(k, f), hS.mem_entries.2 hget, rfl⟩
  have hlength := hperm.length_eq
  rw [List.length_map, List.length_map] at hlength
  exact (hS.size_eq slab).trans hlength

/-- The frame that gives way in the table is the one that was touched least recently in the slab: no two were touched
at the same time. -/
theorem Holds.argmin_eq (hS : S.IsLawful) (h : Holds S x.slab x.index a.find?) (ht : a.Tidy) {r : Recency}
    (hr : Remembers r a) {time : UInt32} {f : Frame} (hf : a.givesWay time = some f) {k : Nat}
    (hk : x.index.lookup f.timestamp = some k) : (S.entries x.slab).argmin (·.2.lastUsed) = some (k, f) := by
  obtain ⟨-, -, hmem, hleast⟩ := ht.givesWay_eq_some hf
  have hfind := ht.find?_of_mem hmem
  obtain ⟨f', hget, hf'⟩ := h.found hk
  obtain rfl : f = f' := Option.some.inj (hfind.symm.trans hf')
  have hentry := hS.mem_entries.2 hget
  cases hmin : (S.entries x.slab).argmin (·.2.lastUsed) with
  | none =>
    rw [List.argmin_eq_none.1 hmin] at hentry
    cases hentry
  | some e =>
    obtain ⟨j, g⟩ := e
    have hgetj := hS.mem_entries.1 (List.argmin_mem hmin)
    have hg := h.table_of_get? hgetj
    have hle : g.lastUsed ≤ f.lastUsed :=
      List.le_of_mem_argmin (f := fun e : Nat × Frame => e.2.lastUsed) hentry hmin
    have hle' := hleast g (of_find?_eq_some hg).1
    have hsame : g.timestamp = f.timestamp := by
      refine hr.eq_of_rank_eq (by rw [hg]; rfl) (by rw [hfind]; rfl) ?_
      rw [rank_of_find? hg, rank_of_find? hfind]
      omega
    have hstored := h.stored hgetj
    rw [hsame, hk] at hstored
    rw [hsame, hfind] at hg
    rw [Option.some.inj hg, Option.some.inj hstored]

/-- **The frame that gives way** leaves slab and index. -/
theorem Holds.evict (hS : S.IsLawful) (h : Holds S x.slab x.index a.find?) (ht : a.Tidy) {r : Recency}
    (hr : Remembers r a) {time : UInt32} {f : Frame} (hf : a.givesWay time = some f) : ∃ slab index,
      x.evict S = some { x with slab, index, stats := { x.stats with dropped := x.stats.dropped + 1 } } ∧
      Holds S slab index fun t => if t = f.timestamp then none else a.find? t := by
  have hfind := ht.find?_of_mem (ht.givesWay_eq_some hf).2.2.1
  obtain ⟨k, hk, -⟩ := h.lookup_of_table hfind
  obtain ⟨slab, htake, hholds⟩ := h.take hS hfind hk
  refine ⟨slab, x.index.erase f.timestamp, ?_, hholds⟩
  unfold Arena.evict
  rw [h.argmin_eq hS ht hr hf hk]
  dsimp only
  rw [htake]
  rfl

/-- **Room for a new frame** is made in the slab as in the table. -/
theorem Holds.makeRoom (hS : S.IsLawful) (h : Holds S x.slab x.index a.find?) (hlimit : x.limit = a.limit) (ht : a.Tidy)
    {r : Recency} (hr : Remembers r a) {time : UInt32} (hnew : a.find? time = none) : ∃ slab index,
      x.makeRoom S = some { x with
        slab
        index
        stats := { x.stats with dropped := x.stats.dropped + (a.crowdsOut time).toNat } } ∧
      Holds S slab index fun t => if (a.givesWay time).any (·.timestamp = t) then none else a.find? t := by
  rw [← a.isSome_givesWay]
  unfold Arena.makeRoom
  by_cases hfull : a.limit ≤ a.pending
  · have hfull' : x.limit ≤ S.size x.slab := by rwa [hlimit, h.size_eq hS ht]
    obtain ⟨f, -, hgives, -⟩ := hr.givesWay ht hnew hfull
    obtain ⟨slab, index, hevict, hholds⟩ := h.evict hS ht hr hgives
    rw [if_pos hfull', hgives]
    refine ⟨slab, index, hevict, ?_⟩
    simp only [Option.any_some, decide_eq_true_eq]
    simpa only [eq_comm] using hholds
  · have hroom : ¬x.limit ≤ S.size x.slab := by rwa [hlimit, h.size_eq hS ht]
    rw [if_neg hroom, a.givesWay_of_none hnew, if_neg hfull]
    exact ⟨x.slab, x.index, rfl, h⟩

/-- **The frame of a packet** is found or begun in the slab. -/
theorem Mirrors.locate (hS : S.IsLawful) (h : Mirrors S x a) (ht : a.Tidy) {r : Recency} (hr : Remembers r a)
    (time : UInt32) (s : Serial) : ∃ k y, x.locate S time s = some (k, y) ∧ Books y (a.touch time s).2 ∧
      y.index.lookup time = some k ∧
      Holds S y.slab y.index fun t => if t = time then some (a.touch time s).1
        else if (a.givesWay time).any (·.timestamp = t) then none else a.find? t := by
  obtain ⟨hpool, hcipher, hstats⟩ := a.touch_keeps time s
  obtain ⟨-, hlimit, hclock, hlast⟩ := a.touch_ticks time s
  have hname := a.timestamp_touch time s
  have hbooks (slab : σ) (index : AList fun _ : UInt32 => Nat) : Books { x.counted s with
      slab
      index
      stats := { x.stats with dropped := x.stats.dropped + (a.crowdsOut time).toNat } } (a.touch time s).2 := by
    refine ⟨?_, ?_, ?_, ?_, ?_, ?_⟩
    · rw [hcipher, ← h.cipher]
      rfl
    · rw [hpool, ← h.pool]
      rfl
    · rw [hlimit, ← h.limit]
      rfl
    · rw [hclock, ← h.clock]
      rfl
    · rw [hlast]
      rfl
    · rw [hstats, ← h.stats]
  cases hfind : a.find? time with
  | some f =>
    have hgives := a.givesWay_of_some hfind
    have hcrowds := a.isSome_givesWay time
    rw [hgives, Option.isSome_none] at hcrowds
    rw [← hcrowds] at hbooks
    obtain ⟨k, hk, hget⟩ := h.holds.lookup_of_table hfind
    have htouch : (a.touch time s).1 =
        ⟨f.timestamp, if s = f.lastSequence + 1 then f.content else .broken, s, x.clock + 1⟩ := by
      rw [Assembler.touch_of_some hfind, h.clock]
    have hlocate : x.locate S time s = some (k, { x.counted s with slab := S.set x.slab k (a.touch time s).1 }) := by
      rw [Arena.locate, hk, htouch]
      dsimp only
      rw [hget]
      rfl
    rw [hgives]
    exact ⟨k, _, hlocate, hbooks _ _, hk, h.holds.set hS hk hname⟩
  | none =>
    have htouch : (a.touch time s).1 =
        ⟨time, if Assembler.followsOn x.lastSequence s then .intact [] none else .broken, s, x.clock + 1⟩ := by
      rw [Assembler.touch_of_new hfind, h.clock, h.lastSequence]
      rfl
    obtain ⟨slab, index, hroom, hholds⟩ := Holds.makeRoom (x := x.counted s) hS h.holds h.limit ht hr hfind
    have hgone : (if (a.givesWay time).any (·.timestamp = time) then none else a.find? time) = none := by
      rw [hfind, ite_self]
    have hlocate : x.locate S time s = some ((S.insert slab (a.touch time s).1).1, { x.counted s with
        slab := (S.insert slab (a.touch time s).1).2
        index := index.insert time (S.insert slab (a.touch time s).1).1
        stats := { x.stats with dropped := x.stats.dropped + (a.crowdsOut time).toNat } }) := by
      rw [Arena.locate, h.holds.lookup_eq_none hfind, htouch]
      dsimp only
      rw [hroom]
      rfl
    exact ⟨_, _, hlocate, hbooks _ _, AList.lookup_insert index, hholds.insert hS hgone hname⟩

/-- **A frame's end** takes it out of slab and index, whatever comes of it. -/
theorem Books.finalize (h : Books x a) {k : Nat} {f : Frame} {slab : σ} (htake : S.take? x.slab k = some (f, slab)) :
    ∃ y, x.finalize S k = some (y, (a.finish f).2) ∧ Books y (a.finish f).1 ∧ y.slab = slab ∧
      y.index = x.index.erase f.timestamp := by
  obtain ⟨cipher, pool, limit, slab₀, index, clock, last, stats⟩ := x
  obtain ⟨rfl, rfl, rfl, rfl, rfl, rfl⟩ := h
  unfold Arena.finalize Assembler.finish
  rw [htake]
  dsimp only [Option.bind_eq_bind, Option.bind_some]
  cases f.content.finished? with
  | none => exact ⟨_, rfl, ⟨rfl, rfl, rfl, rfl, rfl, rfl⟩, rfl, rfl⟩
  | some nals =>
    dsimp only
    cases a.pool.acquire with
    | error fault => exact ⟨_, rfl, ⟨rfl, rfl, rfl, rfl, rfl, rfl⟩, rfl, rfl⟩
    | ok lent =>
      obtain ⟨buffer, pool⟩ := lent
      dsimp only
      cases AccessUnit.ofBuffer (buffer.append (AnnexB.join nals)) (nals.any Nal.isRefresh) f.timestamp 0 with
      | error fault => exact ⟨_, rfl, ⟨rfl, rfl, rfl, rfl, rfl, rfl⟩, rfl, rfl⟩
      | ok unit => exact ⟨_, rfl, ⟨rfl, rfl, rfl, rfl, rfl, rfl⟩, rfl, rfl⟩

theorem hear_eq (h : x.cipher = a.cipher) (p : Rtp.Packet) (content : FrameContent) :
    x.hear p content = (a.heard p content, a.unreadable [p]) := by
  have hsame : x.open? p = ({ a with cipher := x.cipher } : Assembler).open? p := rfl
  have hopen : x.open? p = a.open? p := by rw [hsame, h]
  have hunread : a.unreadable [p] = if (a.open? p).isSome then 0 else 1 := Assembler.unreadable_cons p []
  rw [hear, hopen, hunread]
  cases ho : a.open? p with
  | none =>
    rw [Assembler.heard_unreadable ho]
    rfl
  | some payload =>
    rw [Assembler.heard_of_open ho]
    rfl

/-- The frame of a packet hears it in its place in the slab. -/
theorem Mirrors.hears (hS : S.IsLawful) (h : Mirrors S x a) (ht : a.Tidy) {r : Recency} (hr : Remembers r a)
    (p : Rtp.Packet) : ∃ k y, x.process S p = (if p.header.marker then y.finalize S k else some (y, .ok none)) ∧
      Books y ((a.touch p.header.timestamp p.header.sequence).2.placed (a.frameOf p) (a.unreadable [p])) ∧
      y.index.lookup p.header.timestamp = some k ∧
      Holds S y.slab y.index fun t => if t = p.header.timestamp then some (a.frameOf p)
        else if (a.givesWay p.header.timestamp).any (·.timestamp = t) then none else a.find? t := by
  obtain ⟨k, y, hlocate, hbooks, hk, hholds⟩ := h.locate hS ht hr p.header.timestamp p.header.sequence
  obtain ⟨f, hget, hf⟩ := hholds.found hk
  rw [if_pos rfl] at hf
  obtain rfl := Option.some.inj hf
  have hcipher : y.cipher = a.cipher := hbooks.cipher.trans (a.touch_keeps _ _).2.1
  let z : Arena σ := { y with
    slab := S.set y.slab k (a.frameOf p)
    stats := { y.stats with malformed := y.stats.malformed + a.unreadable [p] } }
  have hprocess : x.process S p = if p.header.marker then z.finalize S k else some (z, .ok none) := by
    unfold Arena.process
    rw [hlocate]
    dsimp only [Option.bind_eq_bind, Option.bind_some]
    rw [hget]
    dsimp only [Option.bind_some]
    rw [hear_eq hcipher]
    rfl
  refine ⟨k, z, hprocess, ⟨hbooks.cipher, hbooks.pool, hbooks.limit, hbooks.clock, hbooks.lastSequence, ?_⟩, hk, ?_⟩
  · rw [show z.stats = { y.stats with malformed := y.stats.malformed + a.unreadable [p] } from rfl, hbooks.stats]
    rfl
  · convert hholds.set hS hk (a.timestamp_frameOf p) using 2 with t
    split <;> rfl

/-- **One packet** makes of both the same, and they answer alike. -/
theorem Mirrors.process (hS : S.IsLawful) (h : Mirrors S x a) (ht : a.Tidy) {r : Recency} (hr : Remembers r a)
    (p : Rtp.Packet) : ∃ y, x.process S p = some (y, (a.process p).2) ∧ Mirrors S y (a.process p).1 := by
  obtain ⟨k, y, hprocess, hbooks, hk, hholds⟩ := h.hears hS ht hr p
  have htable := a.find?_process p
  have hsettle := a.process_eq_settle p
  unfold Assembler.settle at hsettle
  rw [hprocess]
  cases hm : p.header.marker with
  | false =>
    rw [hm] at hsettle htable
    have hend : a.process p = (_, .ok none) := hsettle
    refine ⟨y, by rw [hend]; rfl, by rw [hend]; exact hbooks, ?_⟩
    convert hholds using 2 with t
    exact htable t
  | true =>
    rw [hm] at hsettle htable
    obtain ⟨slab, htake, hleft⟩ := hholds.take hS (if_pos rfl) hk
    obtain ⟨z, hfinalize, hz, hslab, hindex⟩ := hbooks.finalize htake
    have hend : a.process p = Assembler.finish _ (a.frameOf p) := hsettle
    refine ⟨z, by rw [hend]; exact hfinalize, by rw [hend]; exact hz, ?_⟩
    rw [hslab, hindex]
    convert hleft using 2 with t
    rw [htable]
    split <;> rfl

/-! ## Calls -/

/-- The arena after calls, and their answers. -/
def run (S : Slab Frame σ) : Arena σ → List Assembler.Call → Option (Arena σ × List (Except Fault (Option AccessUnit)))
  | x, [] => some (x, [])
  | x, c :: rest => do
    let (y, answer) ← { x with pool := c.pool, cipher := c.cipher : Arena σ }.process S c.packet
    let (z, answers) ← run S y rest
    some (z, answer :: answers)

/-- **Calls** make of both the same, and are answered alike. -/
theorem Mirrors.run (hS : S.IsLawful) : ∀ (calls : List Assembler.Call) {x : Arena σ} {a : Assembler} {r : Recency},
    Mirrors S x a → a.Tidy → Remembers r a →
      ∃ y, x.run S calls = some (y, a.answers calls) ∧ Mirrors S y (a.after calls)
  | [], x, _, _, h, _, _ => ⟨x, rfl, h⟩
  | c :: rest, x, a, r, h, ht, hr => by
    have hmet : Mirrors S { x with pool := c.pool, cipher := c.cipher } (a.met c) :=
      ⟨⟨rfl, rfl, h.limit, h.clock, h.lastSequence, h.stats⟩, h.holds⟩
    have hrmet : Remembers r (a.met c) := ⟨hr.same, hr.ordered, hr.past⟩
    obtain ⟨y, hprocess, hy⟩ := hmet.process hS (ht.met c) hrmet c.packet
    obtain ⟨z, hrun, hz⟩ := Mirrors.run hS rest hy (ht.next c) (hr.next ht c)
    refine ⟨z, ?_, hz⟩
    rw [Arena.run, hprocess]
    dsimp only [Option.bind_eq_bind, Option.bind_some]
    rw [hrun]
    rfl

theorem mirrors_create (hS : S.IsLawful) (cipher : Cipher) (pool : Pool) (limit : Nat) :
    Mirrors S (create S cipher pool limit) (.create cipher pool limit) where
  cipher := rfl
  pool := rfl
  limit := rfl
  clock := rfl
  lastSequence := rfl
  stats := rfl
  holds :=
    { found := fun h => by cases (AList.lookup_empty _).symm.trans h
      absent := fun _ => rfl
      stored := fun h => by cases (hS.get?_withCapacity _ _).symm.trans h
      named := fun h => by cases h }

/-- **The table is a cache of times.**  Whatever the numbers, times and markers of the packets are, and whatever becomes
of cipher and pool, no call comes to the slab with a key under which there is nothing, and the calls are answered as by
the assembler whose frames are a list.  Afterwards the index leads from each of its times to the frame of that time in
the slab, every frame in the slab is where the index leads from its time, and these are the frames in the making, no
two of one time and never more than the limit, or one.  Their times are those that a cache of that size remembers which
each packet touches and the marker takes a time out of, and the frames given up are those the cache has forgotten,
each once, and those that ended unfinished. -/
theorem caches_times {S : Slab Frame σ} (hS : S.IsLawful) (cipher : Cipher) (pool : Pool) (limit : Nat)
    (calls : List Assembler.Call) :
    let fresh := Assembler.create cipher pool limit
    let a := fresh.after calls
    let r := Recency.hearAll (max limit 1) (calls.map (·.packet.header))
    ∃ x, (create S cipher pool limit).run S calls = some (x, fresh.answers calls) ∧
      (∀ time k, x.index.lookup time = some k → ∃ f, S.get? x.slab k = some f ∧ f.timestamp = time) ∧
      (∀ k f, S.get? x.slab k = some f → x.index.lookup f.timestamp = some k) ∧
      (∀ f, f ∈ a.frames ↔ ∃ k, S.get? x.slab k = some f) ∧
      (a.frames.map (·.timestamp)).Nodup ∧
      S.size x.slab = a.pending ∧ a.pending ≤ max limit 1 ∧
      (∀ time, time ∈ x.index ↔ time ∈ r.times) ∧
      x.stats = a.stats ∧ a.stats.dropped = r.forgotten + fresh.unfinished calls := by
  intro fresh a r
  have hfresh : fresh.Tidy := .create cipher pool limit
  have ht : a.Tidy := .after calls hfresh
  have hlimit : a.limit = max limit 1 := Assembler.limit_after calls fresh
  obtain ⟨hr, hdropped⟩ := Assembler.remembers_after cipher pool limit calls
  obtain ⟨x, hrun, hx⟩ := (mirrors_create hS cipher pool limit).run hS calls hfresh (.create cipher pool limit)
  have hbounded := ht.bounded
  rw [hlimit] at hbounded
  refine ⟨x, hrun, fun time k hk => ?_, fun _ _ => hx.holds.stored, fun f => ?_, ht.nodup, hx.holds.size_eq hS ht,
    hbounded, fun time => ?_, hx.stats, hdropped⟩
  · obtain ⟨f, hget, hf⟩ := hx.holds.found hk
    exact ⟨f, hget, hx.holds.named hf⟩
  · constructor
    · intro hf
      obtain ⟨k, -, hget⟩ := hx.holds.lookup_of_table (ht.find?_of_mem hf)
      exact ⟨k, hget⟩
    · rintro ⟨k, hget⟩
      exact (of_find?_eq_some (hx.holds.table_of_get? hget)).1
  · rw [hr.same, hx.holds.table_eq, ← AList.lookup_isSome]
    cases hk : x.index.lookup time with
    | none => rfl
    | some k =>
      obtain ⟨f, hget, -⟩ := hx.holds.found hk
      rw [Option.bind_some, hget]
      rfl

/-- A call with a packet of one NAL unit, when `out` buffers of four are lent. -/
def loneCall (s : Serial) (timestamp : UInt32) (marker : Bool) (out : Fin 5) : Assembler.Call :=
  ⟨⟨⟨marker, 96, s, timestamp, 1⟩, [0x41, 0x9a]⟩, { limit := 4, outstanding := out }, .identity,
    Nat.le_of_lt_succ out.2⟩

/-- Two frames may be in the making.  That of time 20 makes room for that of time 30, which gets its key and is lost for
want of a buffer, and time 40 gets the same key again. -/
theorem caches_times_reusing_key :
    let calls := [loneCall 0 10 false 0, loneCall 1 20 false 0, loneCall 2 10 false 0, loneCall 3 30 false 0,
      loneCall 4 30 true 4, loneCall 5 40 false 0]
    let slab := Cells.slab Frame
    let r := Recency.hearAll 2 (calls.map (·.packet.header))
    slab.IsLawful ∧ r = ⟨[10, 40], 1⟩ ∧
      ((create slab .identity (.ofLimit 4) 2).run slab calls).map (fun y => y.1.index.lookup 40) = some (some 1) ∧
      ∃ x, (create slab .identity (.ofLimit 4) 2).run slab calls =
          some (x, (Assembler.create .identity (.ofLimit 4) 2).answers calls) ∧
        ∀ time, time ∈ x.index ↔ time ∈ r.times := by
  intro calls slab r
  have hslab := Cells.slab_isLawful Frame
  obtain ⟨x, hrun, -, -, -, -, -, -, htimes, -⟩ := caches_times hslab .identity (.ofLimit 4) 2 calls
  exact ⟨hslab, by decide +kernel, by decide +kernel, x, hrun, htimes⟩

end Arena
end VideoTransport
