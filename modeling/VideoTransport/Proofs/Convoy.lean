import VideoTransport.Proofs.Table
/-!
# Convoy — the packets of one access unit at an assembler

The packets of an access unit travel as a convoy: they have one timestamp and consecutive numbers, and only the last has
the marker.  When a convoy reaches an assembler that has no frame of its time, the frame hears all payloads in order and
is then ended, so nothing comes out before the last packet, and what comes out then depends on the payloads alone
(`passed_convoy`).
-/
namespace VideoTransport

/-- Packets of one time with consecutive numbers from `start` on, of which only the last has the marker. -/
def Rtp.IsConvoy (timestamp : UInt32) : Serial → List Packet → Prop
  | _, [] => True
  | start, p :: rest =>
    p.header.timestamp = timestamp ∧ p.header.sequence = start ∧ p.header.marker = rest.isEmpty ∧
      IsConvoy timestamp (start + 1) rest

instance Rtp.decidableIsConvoy (timestamp : UInt32) : (start : Serial) → (packets : List Packet) →
    Decidable (IsConvoy timestamp start packets)
  | _, [] => isTrue trivial
  | start, _ :: rest =>
    have := decidableIsConvoy timestamp (start + 1) rest
    inferInstanceAs (Decidable (_ ∧ _ ∧ _ ∧ _))

namespace Assembler

open Rtp (IsConvoy)

/-- Process packets one after another; the answers to each are in order. -/
def processAll : Assembler → List Rtp.Packet → Assembler × List (Except Fault (Option AccessUnit))
  | a, [] => (a, [])
  | a, p :: rest => ((processAll (a.process p).1 rest).1, (a.process p).2 :: (processAll (a.process p).1 rest).2)

def heardAll (a : Assembler) (packets : List Rtp.Packet) (content : FrameContent) : FrameContent :=
  packets.foldl (fun content p => a.heard p content) content

/-- How many of the packets count as malformed. -/
def unreadable (a : Assembler) (packets : List Rtp.Packet) : Nat := packets.countP fun p => (a.open? p).isNone

variable {a : Assembler}

/-! ## What is heard -/

theorem heard_unreadable {p : Rtp.Packet} (h : a.open? p = none) (content : FrameContent) :
    a.heard p content = .broken := by
  unfold open? at h
  unfold heard
  cases hd : a.cipher.decrypt p.header.packetMeta p.payload with
  | error text => rfl
  | ok data =>
    simp only [hd] at h ⊢
    cases hread : Payload.read data with
    | error reason => rw [FrameContent.hear, hread]
    | ok payload =>
      rw [hread] at h
      cases h

theorem heard_of_open {p : Rtp.Packet} {payload : Payload} (h : a.open? p = some payload)
    (content : FrameContent) : a.heard p content = content.add payload := by
  unfold open? at h
  unfold heard
  cases hd : a.cipher.decrypt p.header.packetMeta p.payload with
  | error text =>
    rw [hd] at h
    cases h
  | ok data =>
    simp only [hd] at h ⊢
    cases hread : Payload.read data with
    | error reason =>
      rw [hread] at h
      cases h
    | ok read =>
      rw [hread] at h
      obtain rfl : read = payload := Option.some.inj h
      rw [FrameContent.hear, hread]

theorem heard_broken (p : Rtp.Packet) : a.heard p .broken = .broken := by
  unfold heard
  split
  · rfl
  · exact FrameContent.hear_broken _

theorem heardAll_broken : ∀ packets : List Rtp.Packet, a.heardAll packets .broken = .broken
  | [] => rfl
  | p :: rest => by rw [heardAll, List.foldl_cons, heard_broken, ← heardAll, heardAll_broken rest]

theorem unreadable_cons (p : Rtp.Packet) (rest : List Rtp.Packet) :
    a.unreadable (p :: rest) = (if (a.open? p).isSome then 0 else 1) + a.unreadable rest := by
  rw [unreadable, List.countP_cons, Nat.add_comm, unreadable]
  cases a.open? p <;> rfl

/-- A frame that is intact in the end has heard no packet that cannot be read. -/
theorem unreadable_eq_zero : ∀ {packets : List Rtp.Packet} {content : FrameContent},
    a.heardAll packets content ≠ .broken → a.unreadable packets = 0
  | [], _, _ => rfl
  | p :: rest, content, h => by
    rw [heardAll, List.foldl_cons, ← heardAll] at h
    have hrest := unreadable_eq_zero h
    cases hp : a.open? p with
    | none => exact absurd (by rw [heard_unreadable hp, heardAll_broken]) h
    | some payload => simp [unreadable_cons, hp, hrest]

/-! ## The end of a frame -/

/-- What packets have made of an assembler when the last of them ended its frame: nothing came out `waits` times, then
what was due; `kept` are the frames left, `evicted` those that made room, and `unread` packets could not be read. -/
structure Passed (a : Assembler) (kept : List Frame) (waits evicted unread : Nat) (due : Option AccessUnit)
    (b : Assembler) (answers : List (Except Fault (Option AccessUnit))) : Prop where
  answers : answers = List.replicate waits (.ok none) ++ [a.pool.grant due]
  frames : b.frames = kept
  pool : b.pool = if (a.pool.granted due).isSome then a.pool.lend else a.pool
  completed : b.stats.completed = a.stats.completed + if (a.pool.granted due).isSome then 1 else 0
  dropped : b.stats.dropped = a.stats.dropped + evicted + if due.isNone then 1 else 0
  malformed : b.stats.malformed = a.stats.malformed + unread

namespace Passed

variable {kept : List Frame} {waits evicted unread : Nat} {due : Option AccessUnit} {unit : AccessUnit}
  {b : Assembler} {answers : List (Except Fault (Option AccessUnit))}

theorem after_noted {p : Rtp.Packet} {rest : List Rtp.Packet}
    (h : Passed (a.noted p evicted) kept waits 0 (a.unreadable rest) due b answers) :
    Passed a kept waits evicted (a.unreadable (p :: rest)) due b answers where
  answers := h.answers
  frames := h.frames
  pool := h.pool
  completed := h.completed
  dropped := h.dropped
  malformed := by
    rw [unreadable_cons, ← Nat.add_assoc]
    exact h.malformed

theorem after_waiting {frames : List Frame} (h : Passed { a with frames } kept waits evicted unread due b answers) :
    Passed a kept (waits + 1) evicted unread due b (.ok none :: answers) :=
  ⟨congrArg (.ok none :: ·) h.answers, h.frames, h.pool, h.completed, h.dropped, h.malformed⟩

theorem mem_answers (h : Passed a kept waits evicted unread due b answers) (unit : AccessUnit) :
    .ok (some unit) ∈ answers ↔ a.pool.HasRoom ∧ due = some unit := by
  rw [h.answers, List.mem_append, List.mem_singleton, List.mem_replicate]
  cases due with
  | none => simp [Pool.grant]
  | some due =>
    by_cases hroom : a.pool.HasRoom
    · simp [Pool.grant, hroom, eq_comm]
    · simp [Pool.grant, hroom]

theorem of_due (h : Passed a kept waits evicted unread (some unit) b answers) (hroom : a.pool.HasRoom) :
    answers = List.replicate waits (.ok none) ++ [.ok (some unit)] ∧ b.pool = a.pool.lend ∧
      b.stats.completed = a.stats.completed + 1 ∧ b.stats.dropped = a.stats.dropped + evicted := by
  obtain ⟨hanswers, -, hpool, hcompleted, hdropped, -⟩ := h
  rw [Pool.granted_of_room hroom] at hpool hcompleted
  rw [Pool.grant, if_pos hroom] at hanswers
  exact ⟨hanswers, hpool, hcompleted, hdropped⟩

theorem of_not_due (h : Passed a kept waits evicted unread none b answers) :
    answers = List.replicate (waits + 1) (.ok none) ∧ b.pool = a.pool ∧ b.stats.completed = a.stats.completed ∧
      b.stats.dropped = a.stats.dropped + evicted + 1 := by
  obtain ⟨hanswers, -, hpool, hcompleted, hdropped, -⟩ := h
  rw [Pool.granted_none] at hpool hcompleted
  exact ⟨hanswers.trans List.replicate_succ'.symm, hpool, hcompleted, hdropped⟩

end Passed

/-! ## The way of a convoy -/

theorem passed_conclude {older : List Frame} {f : Frame} (hold : ∀ e ∈ older, e.timestamp ≠ f.timestamp) :
    Passed a older 0 0 0 (f.content.unit? f.timestamp) (a.conclude older f true).1 [(a.conclude older f true).2] := by
  obtain ⟨hframes, -, -, houtcome, hpool, hcompleted, hdropped⟩ := concluded a hold true
  obtain ⟨-, -, -, hmalformed⟩ := finish_keeps { a with frames := older ++ [f] } f
  exact ⟨congrArg (fun outcome => [outcome]) houtcome, hframes.trans (List.append_nil older), hpool, hcompleted,
    hdropped, hmalformed⟩

/-- **The rest of a convoy** leads to the end of the frame that its first packet began. -/
theorem passed_rest : ∀ (rest : List Rtp.Packet) {a : Assembler} {older : List Frame} {f : Frame},
    (∀ e ∈ older, e.timestamp ≠ f.timestamp) → IsConvoy f.timestamp (f.lastSequence + 1) rest →
    Passed a older rest.length 0 (a.unreadable rest) ((a.heardAll rest f.content).unit? f.timestamp)
      ((a.conclude older f rest.isEmpty).1.processAll rest).1
      ((a.conclude older f rest.isEmpty).2 :: ((a.conclude older f rest.isEmpty).1.processAll rest).2)
  | [], _, _, _, hold, _ => passed_conclude hold
  | p :: rest, a, older, f, hold, ⟨htime, hsequence, hmarker, hrest⟩ => by
    -- More is to come, so the frame waits in the table; then it hears the next packet as the frame touched last.
    let waiting : Assembler := { a with frames := older ++ [f] }
    let f' : Frame := ⟨f.timestamp, a.heard p f.content, f.lastSequence + 1, a.clock + 1⟩
    have hprocess : waiting.process p = (waiting.noted p 0).conclude older f' rest.isEmpty := by
      rw [process_known rfl htime hold, hmarker, hsequence, if_pos rfl]
      rfl
    have ih := passed_rest rest (a := waiting.noted p 0) (f := f') hold hrest
    rw [← hprocess] at ih
    exact ih.after_noted.after_waiting

/-- **A convoy passes an assembler** that has no frame of its time and has not missed a packet before it. -/
theorem passed_convoy {timestamp : UInt32} {start : Serial} {packets : List Rtp.Packet} (h : a.Tidy)
    (hnew : a.find? timestamp = none) (hnext : followsOn a.lastSequence start = true) (hne : packets ≠ [])
    (hconvoy : IsConvoy timestamp start packets) :
    Passed a a.spared (packets.length - 1) (a.pending - a.spared.length) (a.unreadable packets)
      ((a.heardAll packets (.intact [] none)).unit? timestamp) (a.processAll packets).1 (a.processAll packets).2 := by
  obtain ⟨p, rest, rfl⟩ := List.exists_cons_of_ne_nil hne
  obtain ⟨htime, hsequence, hmarker, hrest⟩ := hconvoy
  have hfree : ∀ e ∈ a.frames, e.timestamp ≠ p.header.timestamp :=
    fun e he ht => List.find?_eq_none.1 hnew e he (decide_eq_true (ht.trans htime))
  have hkept : ∀ e ∈ a.spared, e.timestamp ≠ timestamp := fun e he => htime ▸ hfree e (a.spared_sublist.subset he)
  have hprocess := process_begins hfree h.nodup
  rw [hmarker, hsequence, if_pos hnext, htime] at hprocess
  have hpassed := passed_rest rest (a := a.noted p (a.pending - a.spared.length))
    (f := ⟨timestamp, a.heard p (.intact [] none), start, a.clock + 1⟩) hkept hrest
  rw [← hprocess] at hpassed
  exact hpassed.after_noted

/-! ## What a convoy conveys -/

/-- Packets that travel as a convoy from number `start` on, and from which a frame hears `payloads`. -/
structure Conveys (cipher : Cipher) (timestamp : UInt32) (start : Serial) (payloads : List Bytes)
    (packets : List Rtp.Packet) : Prop where
  convoy : IsConvoy timestamp start packets
  length : packets.length = payloads.length
  heard : ∀ a : Assembler, a.cipher = cipher → ∀ content : FrameContent,
    a.heardAll packets content = payloads.foldl .hear content

theorem conveys_identity {timestamp : UInt32} {start : Serial} {packets : List Rtp.Packet}
    (h : IsConvoy timestamp start packets) :
    Conveys .identity timestamp start (packets.map (·.payload)) packets where
  convoy := h
  length := (List.length_map _).symm
  heard a ha content := by
    have hheard : ∀ (p : Rtp.Packet) (c : FrameContent), a.heard p c = c.hear p.payload := by
      intro p c
      rw [heard, ha]
      rfl
    simp only [heardAll, hheard, List.foldl_map]

theorem passed_new {cipher : Cipher} {timestamp : UInt32} {start : Serial} {payloads : List Bytes}
    {packets : List Rtp.Packet} (h : Conveys cipher timestamp start payloads packets) (hne : packets ≠ []) (pool : Pool)
    (limit : Nat) :
    Passed (create cipher pool limit) [] (packets.length - 1) 0 ((create cipher pool limit).unreadable packets)
      ((payloads.foldl .hear (.intact [] none) : FrameContent).unit? timestamp)
      ((create cipher pool limit).processAll packets).1 ((create cipher pool limit).processAll packets).2 := by
  have hspared : (create cipher pool limit).spared = [] := List.sublist_nil.1 (spared_sublist _)
  have hpassed := passed_convoy (.create cipher pool limit) rfl rfl hne h.convoy
  rw [h.heard _ rfl, hspared] at hpassed
  exact hpassed

end Assembler
end VideoTransport
