import VideoTransport.Proofs.Convoy
import VideoTransport.Proofs.Intake
/-!
# Batch — what becomes of packets that leave the reorder buffer together

Packets that leave together are assembled in order until one finds no buffer for the unit that it finishes.  So a batch
brings the units that are due from it as far as buffers are free (`served_assemble`), and packets behind the first unit
without a buffer are lost (`processMedia_hands_over`).
-/
namespace VideoTransport

/-- How many buffers may still be lent. -/
def Pool.free (p : Pool) : Nat := p.limit - p.outstanding

namespace Pool

variable {p : Pool}

theorem free_of_full (h : ¬p.HasRoom) : p.free = 0 := Nat.sub_eq_zero_of_le (Nat.not_lt.1 h)

theorem free_of_room (h : p.HasRoom) : p.free = p.lend.free + 1 := by
  have : p.outstanding < p.limit := h
  show p.limit - p.outstanding = p.limit - (p.outstanding + 1) + 1
  omega

end Pool

namespace Assembler

/-! ## One packet -/

/-- Whether a packet of this time begins a frame when the table is full, so that another frame gives way to it. -/
def crowdsOut (a : Assembler) (timestamp : UInt32) : Bool :=
  (a.find? timestamp).isNone && decide (a.limit ≤ a.pending ∧ a.frames ≠ [])

theorem evict_keeps (a : Assembler) :
    (if a.limit ≤ a.frames.length then a.evict else a).pool = a.pool ∧
      (if a.limit ≤ a.frames.length then a.evict else a).cipher = a.cipher ∧
      (if a.limit ≤ a.frames.length then a.evict else a).stats =
        { a.stats with
          dropped := a.stats.dropped + (decide (a.limit ≤ a.frames.length ∧ a.frames ≠ [])).toNat } := by
  unfold evict
  by_cases hfull : a.limit ≤ a.frames.length
  · rw [if_pos hfull]
    split
    · rename_i hframes
      simp [hframes]
    · rename_i hframes
      have hne : a.frames ≠ [] := fun hnil => by rw [hnil] at hframes; cases hframes
      rw [decide_eq_true ⟨hfull, hne⟩]
      exact ⟨rfl, rfl, rfl⟩
  · simp [hfull]

theorem touch_keeps (a : Assembler) (timestamp : UInt32) (s : Serial) :
    (a.touch timestamp s).2.pool = a.pool ∧ (a.touch timestamp s).2.cipher = a.cipher ∧
      (a.touch timestamp s).2.stats =
        { a.stats with dropped := a.stats.dropped + (a.crowdsOut timestamp).toNat } := by
  have hsame : ({ a with clock := a.clock + 1, lastSequence := some s } : Assembler).find? timestamp =
      a.find? timestamp := rfl
  unfold touch crowdsOut
  simp only [hsame]
  cases a.find? timestamp with
  | some f => exact ⟨rfl, rfl, rfl⟩
  | none => exact evict_keeps { a with clock := a.clock + 1, lastSequence := some s }

/-- The frame of a packet once it has heard the packet. -/
def frameOf (a : Assembler) (p : Rtp.Packet) : Frame :=
  let f := (a.touch p.header.timestamp p.header.sequence).1
  { f with content := a.heard p f.content }

/-- A packet with the marker ends its frame; until then the pool is not asked. -/
theorem process_ends (a : Assembler) (p : Rtp.Packet) : ∃ b : Assembler,
    b.pool = a.pool ∧ b.cipher = a.cipher ∧
      b.stats =
        { a.stats with
          dropped := a.stats.dropped + (a.crowdsOut p.header.timestamp).toNat
          malformed := a.stats.malformed + a.unreadable [p] } ∧
      a.process p = if p.header.marker then b.finish (a.frameOf p) else (b, .ok none) := by
  obtain ⟨hpool, hcipher, hstats⟩ := a.touch_keeps p.header.timestamp p.header.sequence
  unfold process frameOf
  generalize a.touch p.header.timestamp p.header.sequence = touched at hpool hcipher hstats
  obtain ⟨f, b⟩ := touched
  dsimp only at hpool hcipher hstats
  have hheard : a.heard p f.content = b.heard p f.content := by rw [heard, heard, hcipher]
  have hopened : a.open? p = b.open? p := by rw [open?, open?, hcipher]
  have hread : a.unreadable [p] = if (b.open? p).isSome then 0 else 1 := by
    rw [unreadable_cons, hopened]
    rfl
  cases hopen : b.open? p with
  | none =>
    rw [heard_unreadable hopen] at hheard
    rw [hopen] at hread
    simp only [hopen, hheard, hread, hstats]
    refine ⟨_, ?_, ?_, ?_, rfl⟩
    · exact hpool
    · exact hcipher
    · rfl
  | some payload =>
    rw [heard_of_open hopen] at hheard
    rw [hopen] at hread
    simp only [hopen, hheard, hread, hstats]
    refine ⟨_, ?_, ?_, ?_, rfl⟩
    · exact hpool
    · exact hcipher
    · rfl

/-- The unit that a packet finishes, whether or not there is a buffer for it. -/
def due (a : Assembler) (p : Rtp.Packet) : Option AccessUnit := (a.frameOf p).due p.header.marker

/-- **One packet** brings the unit that is due, if the pool has a buffer. -/
theorem process_due (a : Assembler) (p : Rtp.Packet) :
    (a.process p).2 = a.pool.grant (a.due p) ∧
      (a.process p).1.pool = if (a.pool.granted (a.due p)).isSome then a.pool.lend else a.pool := by
  obtain ⟨b, hpool, -, -, hprocess⟩ := a.process_ends p
  rw [hprocess, due, Frame.due, ← hpool]
  cases p.header.marker with
  | true => exact finish_answer b (a.frameOf p)
  | false =>
    simp only [Bool.false_eq_true, if_false, Pool.granted_none]
    exact ⟨rfl, rfl⟩

theorem due_isReleased {a : Assembler} {p : Rtp.Packet} {u : AccessUnit} (h : a.due p = some u) :
    u.isReleased = false := by
  unfold due Frame.due at h
  split at h
  · obtain ⟨nals, -, rfl⟩ := Option.map_eq_some_iff.1 h
    rfl
  · cases h

/-! ## A batch -/

/-- The units that packets finish one after another. -/
def dues : Assembler → List Rtp.Packet → List AccessUnit
  | _, [] => []
  | a, p :: rest => (a.due p).toList ++ (a.process p).1.dues rest

theorem length_dues_le : ∀ (a : Assembler) (packets : List Rtp.Packet), (a.dues packets).length ≤ packets.length
  | _, [] => Nat.le_refl 0
  | a, p :: rest => by
    have hrest := (a.process p).1.length_dues_le rest
    have hone : (a.due p).toList.length ≤ 1 := by cases a.due p <;> simp
    rw [dues, List.length_append, List.length_cons]
    omega

theorem dues_isReleased : ∀ (a : Assembler) (packets : List Rtp.Packet),
    ∀ u ∈ a.dues packets, u.isReleased = false
  | _, [], u, hu => absurd hu List.not_mem_nil
  | a, p :: rest, u, hu => by
    rcases List.mem_append.1 hu with hu | hu
    · exact due_isReleased (Option.mem_toList.1 hu)
    · exact (a.process p).1.dues_isReleased rest u hu

end Assembler

namespace Receiver

open Assembler (dues)

/-- What a batch brings when `units` are due from it: as many of them as buffers are free, each in a buffer of the
pool. -/
structure Served (a : Assembler) (units : List AccessUnit) (batch : Batch) : Prop where
  completed : batch.completed = units.take a.pool.free
  failure : batch.failure = if a.pool.free < units.length then some (.poolExhausted a.pool.limit) else none
  limit : batch.assembler.pool.limit = a.pool.limit
  outstanding : batch.assembler.pool.outstanding = a.pool.outstanding + batch.completed.length

/-- **A batch brings what is due**, as far as buffers are free. -/
theorem served_assemble : ∀ (packets : List Rtp.Packet) (a : Assembler),
    Served a (a.dues packets) (assemble a packets)
  | [], a => ⟨List.take_nil.symm, (if_neg (Nat.not_lt_zero _)).symm, rfl, rfl⟩
  | p :: rest, a => by
    obtain ⟨hanswer, hpool⟩ := a.process_due p
    have ih := served_assemble rest (a.process p).1
    rw [assemble_cons, hanswer, dues]
    cases hdue : a.due p with
    | none =>
      rw [hdue, Pool.granted_none] at hpool
      have hsame : (a.process p).1.pool = a.pool := hpool
      obtain ⟨hcompleted, hfailure, hlimit, houtstanding⟩ := ih
      rw [hsame] at hcompleted hfailure hlimit houtstanding
      exact ⟨hcompleted, hfailure, hlimit, houtstanding⟩
    | some unit =>
      by_cases hroom : a.pool.HasRoom
      · rw [hdue, Pool.granted_of_room hroom] at hpool
        have hlent : (a.process p).1.pool = a.pool.lend := hpool
        obtain ⟨hcompleted, hfailure, hlimit, houtstanding⟩ := ih
        rw [hlent] at hcompleted hfailure hlimit houtstanding
        rw [Pool.grant, if_pos hroom, Option.toList_some, List.singleton_append]
        refine ⟨?_, ?_, hlimit, ?_⟩
        · rw [Pool.free_of_room hroom, List.take_succ_cons, hcompleted]
        · rw [Pool.free_of_room hroom, List.length_cons, hfailure]
          simp only [Nat.add_lt_add_iff_right]
          rfl
        · rw [houtstanding, List.length_cons]
          exact Nat.add_right_comm _ _ _
      · rw [Pool.grant, if_neg hroom]
        rw [hdue, Pool.granted_of_full hroom] at hpool
        have hsame : (a.process p).1.pool = a.pool := hpool
        refine ⟨?_, ?_, congrArg Pool.limit hsame, congrArg Pool.outstanding hsame⟩
        · rw [Pool.free_of_full hroom, List.take_zero]
        · rw [Pool.free_of_full hroom, Option.toList_some, List.singleton_append, List.length_cons,
            if_pos (Nat.succ_pos _)]

/-! ## What is handed to the assembler -/

/-- The packets that leave the reorder buffer when a datagram comes. -/
def ready (r : Receiver) (datagram : Bytes) : List Rtp.Packet :=
  match Rtp.Packet.parse datagram with
  | .error _ => []
  | .ok packet => (r.reorder.add packet.header.sequence packet).popReady.1

/-- The packets of a batch that an assembler is handed before the batch ends. -/
def handed : Assembler → List Rtp.Packet → List Rtp.Packet
  | _, [] => []
  | a, p :: rest =>
    p :: match (a.process p).2 with
      | .error _ => []
      | .ok _ => handed (a.process p).1 rest

theorem handed_append_abandoned : ∀ (packets : List Rtp.Packet) (a : Assembler),
    handed a packets ++ (assemble a packets).abandoned = packets
  | [], _ => rfl
  | p :: rest, a => by
    have ih := handed_append_abandoned rest (a.process p).1
    rw [assemble_cons, handed]
    cases hanswer : (a.process p).2 with
    | error fault => rfl
    | ok answer =>
      cases answer with
      | none => exact congrArg (p :: ·) ih
      | some unit => exact congrArg (p :: ·) ih

/-- Nothing but the packets handed over makes the assembler what it is after the batch. -/
theorem processAll_handed : ∀ (packets : List Rtp.Packet) (a : Assembler),
    (assemble a packets).assembler = (a.processAll (handed a packets)).1
  | [], _ => rfl
  | p :: rest, a => by
    have ih := processAll_handed rest (a.process p).1
    rw [assemble_cons, handed]
    cases hanswer : (a.process p).2 with
    | error fault => rfl
    | ok answer =>
      cases answer with
      | none => exact ih
      | some unit => exact ih

/-- **All packets are handed over** iff those before the last finish no more units than buffers are free. -/
theorem handed_eq_iff : ∀ (packets : List Rtp.Packet) (a : Assembler),
    handed a packets = packets ↔ (a.dues packets.dropLast).length ≤ a.pool.free
  | [], _ => by simp [handed, dues]
  | [p], a => by
    have hself : handed a [p] = [p] := by
      rw [handed]
      cases (a.process p).2 <;> rfl
    simp [hself, dues]
  | p :: q :: rest, a => by
    obtain ⟨hanswer, hpool⟩ := a.process_due p
    have ih := handed_eq_iff (q :: rest) (a.process p).1
    rw [List.dropLast_cons_cons, dues, List.length_append, handed, hanswer, List.cons_inj_right]
    cases hdue : a.due p with
    | none =>
      rw [hdue, Pool.granted_none] at hpool
      rw [show (a.process p).1.pool = a.pool from hpool] at ih
      rw [Option.toList_none, List.length_nil, Nat.zero_add]
      exact ih
    | some unit =>
      by_cases hroom : a.pool.HasRoom
      · rw [hdue, Pool.granted_of_room hroom] at hpool
        rw [show (a.process p).1.pool = a.pool.lend from hpool] at ih
        rw [Pool.free_of_room hroom, Pool.grant, if_pos hroom, Option.toList_some, List.length_singleton, Nat.add_comm 1,
          Nat.add_le_add_iff_right]
        exact ih
      · rw [Pool.free_of_full hroom, Pool.grant, if_neg hroom, Option.toList_some, List.length_singleton]
        constructor
        · intro h
          cases h
        · intro h
          omega

/-- **The packets that leave the reorder buffer together** are handed to the assembler in their order and each once, up
to the first that finishes a unit for which there is no buffer.  So all are handed over iff those before the last finish
no more units than buffers are free; otherwise the packets behind that one are lost. -/
theorem processMedia_hands_over (r : Receiver) (datagram : Bytes) (arrival : UInt32) :
    handed r.assembler (r.ready datagram) <+: r.ready datagram ∧
      (∃ pool, (r.processMedia datagram arrival).receiver.assembler =
        { (r.assembler.processAll (handed r.assembler (r.ready datagram))).1 with pool }) ∧
      (handed r.assembler (r.ready datagram) = r.ready datagram ↔
        (r.assembler.dues (r.ready datagram).dropLast).length ≤ r.pool.free) := by
  refine ⟨⟨_, handed_append_abandoned _ _⟩, ?_, handed_eq_iff _ _⟩
  cases hp : Rtp.Packet.parse datagram with
  | error reason =>
    refine ⟨r.assembler.pool, ?_⟩
    unfold processMedia ready
    simp only [hp]
    rfl
  | ok packet =>
    obtain ⟨-, -, -, -, hassembler⟩ := r.processMedia_of_parse arrival hp rfl rfl
    have hready : r.ready datagram = (r.reorder.add packet.header.sequence packet).popReady.1 := by
      unfold ready
      rw [hp]
    rw [hassembler, hready, ← processAll_handed]
    split
    · exact ⟨_, rfl⟩
    · exact ⟨_, rfl⟩

/-- The application keeps the first unit of the sample, and its pool has one buffer.  The last packet comes before the
last but one, so both leave the reorder buffer together, and the last one is lost. -/
theorem abandons_packet : ∃ r, create { poolCapacity := 1 } .identity = .ok r ∧
    let before := [0, 1, 3].foldl (fun r i => (r.processMedia (sampleArrival i).datagram 0).receiver) r
    before.ready (sampleArrival 2).datagram = [2, 3].map (Packetizer.plain.packetAt Packetizer.sample) ∧
      handed before.assembler (before.ready (sampleArrival 2).datagram) =
        [Packetizer.plain.packetAt Packetizer.sample 2] :=
  ⟨_, rfl, by decide +kernel⟩

end Receiver
end VideoTransport
