import Mathlib.Data.UInt
import VideoTransport.Proofs.Stages
import VideoTransport.Proofs.Stranding
/-!
# Rotation — the circle of numbers has no beginning

Nothing that happens to media packets depends on where on the circle of numbers a stream begins.  A reorder buffer asks
only how far one number is from another and whether two are the same, and an assembler only whether one number is the
next after another.  So when all numbers are moved on by one constant, each step of either does what it did, `c` further
on (`Reorder.add_rotate`, `Reorder.popReady_rotate`, `Assembler.process_rotate`), and whoever looks at the units that
come out and at what is counted cannot tell the two runs apart (`Line.rotation_unnoticed`).
-/
namespace VideoTransport

/-! ## Numbers -/

namespace Serial

@[simp] theorem distance_add_right (origin s c : Serial) : distance (origin + c) (s + c) = distance origin s :=
  add_sub_add_right_eq_sub s origin c

@[simp] theorem atOrAhead_add_right (origin s c : Serial) : atOrAhead (origin + c) (s + c) = atOrAhead origin s := by
  rw [atOrAhead, atOrAhead, distance_add_right]

theorem add_one_right_comm (s c : Serial) : s + c + 1 = s + 1 + c := by
  rw [UInt16.add_assoc, UInt16.add_comm c 1, UInt16.add_assoc]

end Serial


/-! ## The reorder buffer -/

namespace Reorder

variable {α β : Type} (c : Serial) (g : α → β)

/-- An item that waits, its number `c` further on. -/
def turn (e : Serial × α) : Serial × β := (e.1 + c, g e.2)

/-- A buffer in which all numbers are `c` further on and the items are what `g` makes of them. -/
def rotate (r : Reorder α) : Reorder β where
  capacity := r.capacity
  pending := r.pending.map (turn c g)
  cursor := r.cursor.map (· + c)
  hasReleased := r.hasReleased
  forced := r.forced.map g
  dropped := r.dropped

theorem takeOut_turn (s : Serial) : ∀ items : List (Serial × α),
    takeOut (s + c) (items.map (turn c g)) = (takeOut s items).map fun (a, rest) => (g a, rest.map (turn c g))
  | [] => rfl
  | (t, a) :: rest => by
    rw [List.map_cons, takeOut, takeOut]
    by_cases h : t = s
    · rw [if_pos h, turn, if_pos (congrArg (· + c) h)]
      rfl
    · have hc : (turn c g (t, a)).1 ≠ s + c := fun heq => h ((UInt16.add_left_inj c).1 heq)
      rw [if_neg h, if_neg hc, takeOut_turn s rest, Option.map_map, Option.map_map]
      rfl

theorem nearest_turn (cursor : Serial) : ∀ (items : List (Serial × α)) (best : Serial),
    nearest (cursor + c) (best + c) (items.map (turn c g)) = nearest cursor best items + c
  | [], _ => rfl
  | e :: items, best => by
    rw [nearest, nearest, List.map_cons, List.foldl_cons, List.foldl_cons, ← nearest, ← nearest, turn]
    dsimp only
    rw [Serial.distance_add_right, Serial.distance_add_right]
    split
    · exact nearest_turn cursor items e.1
    · exact nearest_turn cursor items best

theorem forceNearest_rotate (r : Reorder α) (cursor : Serial) :
    (r.rotate c g).forceNearest (cursor + c) = (r.forceNearest cursor).rotate c g := by
  cases hp : r.pending with
  | nil =>
    have hp' : (r.rotate c g).pending = [] := congrArg (List.map (turn c g)) hp
    unfold forceNearest
    rw [hp, hp']
  | cons e rest =>
    have hp' : (r.rotate c g).pending = turn c g e :: rest.map (turn c g) := congrArg (List.map (turn c g)) hp
    have hnear : nearest (cursor + c) (turn c g e).1 (rest.map (turn c g)) = nearest cursor e.1 rest + c :=
      nearest_turn c g cursor rest e.1
    have htake : takeOut (nearest cursor e.1 rest + c) (turn c g e :: rest.map (turn c g)) =
        (takeOut (nearest cursor e.1 rest) (e :: rest)).map fun (a, left) => (g a, left.map (turn c g)) :=
      takeOut_turn c g _ (e :: rest)
    unfold forceNearest
    rw [hp, hp']
    dsimp only
    rw [hnear, htake]
    cases takeOut (nearest cursor e.1 rest) (e :: rest) with
    | none => rfl
    | some taken =>
      by_cases hfull : r.capacity ≤ r.forced.length
      · simp [rotate, hfull, Serial.add_one_right_comm]
      · simp [rotate, hfull, Serial.add_one_right_comm]

theorem insert_rotate (r : Reorder α) (cursor s : Serial) (item : α) :
    (r.rotate c g).insert (cursor + c) (s + c) (g item) = (r.insert cursor s item).rotate c g := by
  by_cases hknown : ∃ e ∈ r.pending, e.1 = s
  · obtain ⟨e, he, hs⟩ := hknown
    rw [insert_of_known ⟨e, he, hs⟩,
      insert_of_known (r := r.rotate c g) ⟨turn c g e, List.mem_map_of_mem he, congrArg (· + c) hs⟩]
    rfl
  · have hnew : ∀ e ∈ r.pending, e.1 ≠ s := fun e he hs => hknown ⟨e, he, hs⟩
    have hnew' : ∀ e ∈ (r.rotate c g).pending, e.1 ≠ s + c := by
      intro e he hs
      obtain ⟨d, hd, rfl⟩ := List.mem_map.1 he
      exact hnew d hd ((UInt16.add_left_inj c).1 hs)
    have hsize : (r.rotate c g).size = r.size := List.length_map _
    have hgrown : ({ r.rotate c g with
        cursor := some (cursor + c)
        pending := (r.rotate c g).pending ++ [(s + c, g item)] } : Reorder β) =
        rotate c g { r with cursor := some cursor, pending := r.pending ++ [(s, item)] } := by
      simp [rotate, turn]
    rw [insert_of_new hnew, insert_of_new hnew', hsize, hgrown]
    dsimp only
    rw [forceNearest_rotate]
    exact (apply_ite (rotate c g) (r.size < r.capacity) _ _).symm

/-- **Taking in** an item whose number is `c` further on. -/
theorem add_rotate (r : Reorder α) (s : Serial) (item : α) :
    (r.rotate c g).add (s + c) (g item) = (r.add s item).rotate c g := by
  have hcursor : (r.rotate c g).cursor.getD (s + c) = r.cursor.getD s + c := by
    rw [rotate]
    cases r.cursor <;> rfl
  unfold add
  dsimp only
  rw [hcursor, Serial.atOrAhead_add_right, insert_rotate, insert_rotate]
  split
  · rfl
  · exact (apply_ite (rotate c g) (r.hasReleased = true) { r with dropped := r.dropped + 1 } (r.insert s s item)).symm

theorem takeRun_turn : ∀ (fuel : Nat) (cursor : Serial) (pending : List (Serial × α)),
    takeRun fuel (cursor + c) (pending.map (turn c g)) =
      ((takeRun fuel cursor pending).1.map g, (takeRun fuel cursor pending).2.1.map (turn c g),
        (takeRun fuel cursor pending).2.2 + c)
  | 0, _, _ => rfl
  | fuel + 1, cursor, pending => by
    rw [takeRun, takeRun, takeOut_turn]
    cases takeOut cursor pending with
    | none => rfl
    | some taken =>
      have ih := takeRun_turn fuel (cursor + 1) taken.2
      dsimp only [Option.map_some]
      rw [Serial.add_one_right_comm, ih]
      rfl

/-- **Collecting** when all numbers are `c` further on. -/
theorem popReady_rotate (r : Reorder α) :
    (r.rotate c g).popReady = (r.popReady.1.map g, r.popReady.2.rotate c g) := by
  unfold popReady
  cases hc : r.cursor with
  | none =>
    have hc' : (r.rotate c g).cursor = none := congrArg (Option.map (· + c)) hc
    rw [hc']
    exact congrArg (Prod.mk _) (by simp [rotate, hc])
  | some cursor =>
    have hc' : (r.rotate c g).cursor = some (cursor + c) := congrArg (Option.map (· + c)) hc
    have hlength : (r.rotate c g).pending.length = r.pending.length := List.length_map _
    have hrun : takeRun r.pending.length (cursor + c) (r.rotate c g).pending = _ :=
      takeRun_turn c g r.pending.length cursor r.pending
    rw [hc']
    dsimp only
    rw [hlength, hrun]
    simp only [rotate, ← List.map_append, List.isEmpty_map]
    rfl

end Reorder

/-! ## The assembler -/

/-- A packet whose number is `c` further on. -/
def Rtp.Packet.rotate (c : Serial) (p : Packet) : Packet :=
  { p with header := { p.header with sequence := p.header.sequence + c } }

/-- Whether decrypting a payload takes no account of the number of its packet. -/
def Cipher.IgnoresNumbers (cipher : Cipher) : Prop :=
  ∀ (m : PacketMeta) (s : Serial) (data : Bytes), cipher.decrypt { m with sequence := s } data = cipher.decrypt m data

theorem Cipher.xor_ignoresNumbers (key : UInt8) : (Cipher.xor key).IgnoresNumbers := fun _ _ _ => rfl

def Frame.rotate (c : Serial) (f : Frame) : Frame := { f with lastSequence := f.lastSequence + c }

namespace Assembler

variable (c : Serial)

/-- An assembler whose packets all had numbers `c` further on. -/
def rotate (a : Assembler) : Assembler :=
  { a with frames := a.frames.map (Frame.rotate c), lastSequence := a.lastSequence.map (· + c) }

theorem find?_rotate (a : Assembler) (timestamp : UInt32) :
    (a.rotate c).find? timestamp = (a.find? timestamp).map (Frame.rotate c) := List.find?_map

theorem leastRecent_rotate : ∀ (frames : List Frame) (best : Frame),
    leastRecent (best.rotate c) (frames.map (Frame.rotate c)) = (leastRecent best frames).rotate c
  | [], _ => rfl
  | f :: rest, best => by
    rw [leastRecent, leastRecent, List.map_cons, List.foldl_cons, List.foldl_cons, ← leastRecent, ← leastRecent]
    show leastRecent (if f.lastUsed < best.lastUsed then f.rotate c else best.rotate c) _ = _
    split
    · exact leastRecent_rotate rest f
    · exact leastRecent_rotate rest best

theorem remove_rotate (timestamp : UInt32) (frames : List Frame) :
    remove timestamp (frames.map (Frame.rotate c)) = (remove timestamp frames).map (Frame.rotate c) :=
  List.filter_map

theorem replace_rotate (f : Frame) (frames : List Frame) :
    replace (f.rotate c) (frames.map (Frame.rotate c)) = (replace f frames).map (Frame.rotate c) := by
  rw [replace, replace, List.map_map, List.map_map]
  exact List.map_congr_left fun g _ => (apply_ite (Frame.rotate c) (g.timestamp = f.timestamp) f g).symm

theorem evict_rotate (a : Assembler) : (a.rotate c).evict = a.evict.rotate c := by
  cases hf : a.frames with
  | nil =>
    have hf' : (a.rotate c).frames = [] := congrArg (List.map (Frame.rotate c)) hf
    rw [evict, evict, hf, hf']
  | cons f rest =>
    have hf' : (a.rotate c).frames = f.rotate c :: rest.map (Frame.rotate c) :=
      congrArg (List.map (Frame.rotate c)) hf
    have hremove : ∀ timestamp, remove timestamp (f.rotate c :: rest.map (Frame.rotate c)) =
        (remove timestamp (f :: rest)).map (Frame.rotate c) := fun timestamp => remove_rotate c timestamp (f :: rest)
    rw [evict, evict, hf, hf']
    dsimp only
    rw [leastRecent_rotate, hremove]
    rfl

theorem followsOn_rotate (previous : Option Serial) (s : Serial) :
    followsOn (previous.map (· + c)) (s + c) = followsOn previous s := by
  cases previous with
  | none => rfl
  | some p =>
    refine decide_eq_decide.2 ?_
    rw [Serial.add_one_right_comm]
    exact UInt16.add_left_inj c

theorem withRoom_rotate (a : Assembler) : (a.rotate c).withRoom = a.withRoom.rotate c := by
  have hlength : (a.rotate c).frames.length = a.frames.length := List.length_map _
  unfold withRoom
  rw [hlength, evict_rotate]
  exact (apply_ite (rotate c) (a.limit ≤ a.frames.length) a.evict a).symm

theorem begun_rotate (a : Assembler) (timestamp : UInt32) (s : Serial) :
    (a.rotate c).begun timestamp (s + c) = (a.begun timestamp s).rotate c := by
  have hfollows : followsOn (a.rotate c).lastSequence (s + c) = followsOn a.lastSequence s :=
    followsOn_rotate c a.lastSequence s
  rw [begun, hfollows]
  rfl

theorem touch_rotate (a : Assembler) (timestamp : UInt32) (s : Serial) :
    (a.rotate c).touch timestamp (s + c) = ((a.touch timestamp s).1.rotate c, (a.touch timestamp s).2.rotate c) := by
  cases hfind : a.find? timestamp with
  | some f =>
    have hfind' : (a.rotate c).find? timestamp = some (f.rotate c) := by
      rw [find?_rotate, hfind]
      rfl
    have hnext : s + c = (f.rotate c).lastSequence + 1 ↔ s = f.lastSequence + 1 := by
      rw [Frame.rotate, Serial.add_one_right_comm]
      exact UInt16.add_left_inj c
    rw [touch_of_some hfind, touch_of_some hfind', if_congr hnext rfl rfl]
    rfl
  | none =>
    have hfind' : (a.rotate c).find? timestamp = none := by
      rw [find?_rotate, hfind]
      rfl
    have hroom : ((a.rotate c).counted (s + c)).withRoom = (a.counted s).withRoom.rotate c :=
      withRoom_rotate c (a.counted s)
    rw [touch_of_new hfind, touch_of_new hfind', hroom, begun_rotate]
    simp [rotate]

theorem open?_rotate {a : Assembler} (h : a.cipher.IgnoresNumbers) (p : Rtp.Packet) :
    (a.rotate c).open? (p.rotate c) = a.open? p := by
  have hdecrypt : a.cipher.decrypt (p.rotate c).header.packetMeta (p.rotate c).payload =
      a.cipher.decrypt p.header.packetMeta p.payload := h p.header.packetMeta _ p.payload
  unfold open?
  rw [show (a.rotate c).cipher = a.cipher from rfl, hdecrypt]

theorem heard_rotate {a : Assembler} (h : a.cipher.IgnoresNumbers) (p : Rtp.Packet) (content : FrameContent) :
    (a.rotate c).heard (p.rotate c) content = a.heard p content := by
  have hopen := open?_rotate c h p
  cases hp : a.open? p with
  | none => rw [heard_unreadable hp, heard_unreadable (hopen.trans hp)]
  | some payload => rw [heard_of_open hp, heard_of_open (hopen.trans hp)]

theorem frameOf_rotate {a : Assembler} (h : a.cipher.IgnoresNumbers) (p : Rtp.Packet) :
    (a.rotate c).frameOf (p.rotate c) = (a.frameOf p).rotate c := by
  have htouch := touch_rotate c a p.header.timestamp p.header.sequence
  unfold frameOf
  rw [show (p.rotate c).header.timestamp = p.header.timestamp from rfl,
    show (p.rotate c).header.sequence = p.header.sequence + c from rfl, htouch]
  dsimp only
  rw [heard_rotate c h]
  rfl

theorem finish_rotate (a : Assembler) (f : Frame) :
    (a.rotate c).finish (f.rotate c) = ((a.finish f).1.rotate c, (a.finish f).2) := by
  have hframes : remove f.timestamp (a.rotate c).frames = (remove f.timestamp a.frames).map (Frame.rotate c) :=
    remove_rotate c f.timestamp a.frames
  unfold finish
  dsimp only [Frame.rotate]
  rw [hframes]
  cases f.content.finished? with
  | none => rfl
  | some nals =>
    have hpool : (a.rotate c).pool = a.pool := rfl
    rw [hpool]
    dsimp only
    cases a.pool.acquire with
    | error fault => rfl
    | ok lent =>
      dsimp only
      cases AccessUnit.ofBuffer (lent.1.append (AnnexB.join nals)) (nals.any Nal.isRefresh) f.timestamp 0 with
      | error fault => rfl
      | ok unit => rfl

theorem settle_rotate (a : Assembler) (f : Frame) (unread : Nat) (marker : Bool) :
    (a.rotate c).settle (f.rotate c) unread marker =
      ((a.settle f unread marker).1.rotate c, (a.settle f unread marker).2) := by
  have hplaced : (a.rotate c).placed (f.rotate c) unread = (a.placed f unread).rotate c := by
    rw [placed, show (a.rotate c).frames = a.frames.map (Frame.rotate c) from rfl, replace_rotate]
    rfl
  unfold settle
  rw [hplaced, finish_rotate]
  cases marker <;> rfl

/-- **One packet** whose number is `c` further on, like all before it. -/
theorem process_rotate {a : Assembler} (h : a.cipher.IgnoresNumbers) (p : Rtp.Packet) :
    (a.rotate c).process (p.rotate c) = ((a.process p).1.rotate c, (a.process p).2) := by
  have htouch : (a.rotate c).touch (p.rotate c).header.timestamp (p.rotate c).header.sequence = _ :=
    touch_rotate c a p.header.timestamp p.header.sequence
  have hunread : (a.rotate c).unreadable [p.rotate c] = a.unreadable [p] := by
    rw [unreadable_cons, unreadable_cons, open?_rotate c h]
    rfl
  rw [process_eq_settle, process_eq_settle, htouch, frameOf_rotate c h, hunread]
  exact settle_rotate c _ _ _ _

end Assembler

/-! ## A line of both -/

/-- A reorder buffer before an assembler, and what has come of the packets so far. -/
structure Line where
  reorder : Reorder Rtp.Packet
  assembler : Assembler
  /-- The packets that have been handed to the assembler, in order. -/
  released : List Rtp.Packet := []
  /-- Its answers to them. -/
  answers : List (Except Fault (Option AccessUnit)) := []

namespace Line

open Reorder (Use)

def create (capacity : Nat) (cipher : Cipher) (pool : Pool) (limit : Nat) : Line where
  reorder := Reorder.ofCapacity capacity
  assembler := Assembler.create cipher pool limit

/-- Hand a packet to the assembler.  Before that the application, which knows all answers so far, has taken buffers of
the pool or given some back; `leaves` says in what state it leaves the pool. -/
def feed (leaves : List (Except Fault (Option AccessUnit)) → Pool → Pool) (l : Line) (p : Rtp.Packet) : Line :=
  let (assembler, answer) := { l.assembler with pool := leaves l.answers l.assembler.pool }.process p
  { l with assembler, released := l.released ++ [p], answers := l.answers ++ [answer] }

/-- A packet arrives, or what is ready is handed to the assembler. -/
def next (leaves : List (Except Fault (Option AccessUnit)) → Pool → Pool) (l : Line) : Use Rtp.Packet → Line
  | .add s p => { l with reorder := l.reorder.add s p }
  | .collect => l.reorder.popReady.1.foldl (feed leaves) { l with reorder := l.reorder.popReady.2 }

def after (leaves : List (Except Fault (Option AccessUnit)) → Pool → Pool) (l : Line) (uses : List (Use Rtp.Packet)) :
    Line := uses.foldl (next leaves) l

/-- A line whose packets all had numbers `c` further on. -/
def rotate (c : Serial) (l : Line) : Line where
  reorder := l.reorder.rotate c (.rotate c)
  assembler := l.assembler.rotate c
  released := l.released.map (.rotate c)
  answers := l.answers

end Line

/-- A use of a reorder buffer for a packet whose number is `c` further on. -/
def Reorder.Use.rotate (c : Serial) : Use Rtp.Packet → Use Rtp.Packet
  | .add s p => .add (s + c) (p.rotate c)
  | .collect => .collect

namespace Line

variable (c : Serial) {leaves : List (Except Fault (Option AccessUnit)) → Pool → Pool} {l : Line}

theorem feed_rotate (h : l.assembler.cipher.IgnoresNumbers) (p : Rtp.Packet) :
    (l.rotate c).feed leaves (p.rotate c) = (l.feed leaves p).rotate c := by
  have hprocess : ({ l.assembler.rotate c with pool := leaves l.answers l.assembler.pool } : Assembler).process
      (p.rotate c) = _ :=
    Assembler.process_rotate c (a := { l.assembler with pool := leaves l.answers l.assembler.pool }) h p
  unfold feed
  dsimp only [rotate]
  rw [show (l.assembler.rotate c).pool = l.assembler.pool from rfl, hprocess]
  simp

theorem cipher_feed (p : Rtp.Packet) : (l.feed leaves p).assembler.cipher = l.assembler.cipher :=
  (Assembler.process_keeps { l.assembler with pool := leaves l.answers l.assembler.pool } p).1

theorem foldl_feed_rotate : ∀ (packets : List Rtp.Packet) {l : Line}, l.assembler.cipher.IgnoresNumbers →
    (packets.map (.rotate c)).foldl (feed leaves) (l.rotate c) = (packets.foldl (feed leaves) l).rotate c ∧
      (packets.foldl (feed leaves) l).assembler.cipher = l.assembler.cipher
  | [], _, _ => ⟨rfl, rfl⟩
  | p :: rest, l, h => by
    have hcipher : (l.feed leaves p).assembler.cipher = l.assembler.cipher := l.cipher_feed p
    obtain ⟨hrest, hkept⟩ := foldl_feed_rotate rest (l := l.feed leaves p) (hcipher ▸ h)
    rw [List.map_cons, List.foldl_cons, List.foldl_cons, feed_rotate c h]
    exact ⟨hrest, hkept.trans hcipher⟩

/-- **One use** of a line whose packets all had numbers `c` further on. -/
theorem next_rotate (h : l.assembler.cipher.IgnoresNumbers) (u : Reorder.Use Rtp.Packet) :
    (l.rotate c).next leaves (u.rotate c) = (l.next leaves u).rotate c ∧
      (l.next leaves u).assembler.cipher = l.assembler.cipher := by
  cases u with
  | add s p =>
    refine ⟨?_, rfl⟩
    have hadd := Reorder.add_rotate c (Rtp.Packet.rotate c) l.reorder s p
    exact congrArg (fun reorder => { l.rotate c with reorder }) hadd
  | collect =>
    have hready := Reorder.popReady_rotate c (Rtp.Packet.rotate c) l.reorder
    unfold next
    rw [show (l.rotate c).reorder = l.reorder.rotate c (.rotate c) from rfl]
    dsimp only [Reorder.Use.rotate]
    rw [hready]
    exact foldl_feed_rotate c l.reorder.popReady.1 (l := { l with reorder := l.reorder.popReady.2 }) h

theorem after_rotate : ∀ (uses : List (Reorder.Use Rtp.Packet)) {l : Line}, l.assembler.cipher.IgnoresNumbers →
    (l.rotate c).after leaves (uses.map (.rotate c)) = (l.after leaves uses).rotate c
  | [], _, _ => rfl
  | u :: rest, l, h => by
    obtain ⟨hnext, hcipher⟩ : (l.rotate c).next leaves (u.rotate c) = (l.next leaves u).rotate c ∧
        (l.next leaves u).assembler.cipher = l.assembler.cipher := next_rotate c h u
    have hrest := after_rotate rest (l := l.next leaves u) (hcipher ▸ h)
    unfold after at hrest ⊢
    rw [List.map_cons, List.foldl_cons, List.foldl_cons, hnext, hrest]

/-- **Nobody can tell where on the circle a stream begins.**  A reorder buffer of any capacity takes packets in and is
collected from in any order, its cipher ignores numbers, and whatever comes out goes to an assembler while the
application does with the pool what it likes.  When the numbers of all packets are moved on by one constant, then at
every moment the answers so far are the same, and so are the packets waiting and thrown away and the assembler's frames
and statistics; the packets that have been released are the same ones in the same order, and the cursor has moved on by
the constant. -/
theorem rotation_unnoticed (capacity : Nat) {cipher : Cipher} (hc : cipher.IgnoresNumbers) (pool : Pool) (limit : Nat)
    (leaves : List (Except Fault (Option AccessUnit)) → Pool → Pool) (uses : List (Reorder.Use Rtp.Packet))
    (c : Serial) :
    let l := (create capacity cipher pool limit).after leaves uses
    let l' := (create capacity cipher pool limit).after leaves (uses.map (.rotate c))
    l'.answers = l.answers ∧ l'.reorder.size = l.reorder.size ∧ l'.reorder.dropped = l.reorder.dropped ∧
      l'.assembler.pending = l.assembler.pending ∧ l'.assembler.stats = l.assembler.stats ∧
      l'.released = l.released.map (.rotate c) ∧ l'.reorder.cursor = l.reorder.cursor.map (· + c) := by
  intro l l'
  have hrotate : l' = l.rotate c := after_rotate c uses (l := create capacity cipher pool limit) hc
  rw [hrotate]
  exact ⟨rfl, List.length_map _, rfl, List.length_map _, rfl, rfl, rfl⟩

/-- A packet with the marker that holds a whole picture, behind the exclusive-or cipher. -/
def lonePacket (s : Serial) : Rtp.Packet := ⟨⟨true, 96, s, 3000 * s.toUInt32, 1⟩, [0x1b, 0xc0]⟩

/-- Two may wait.  Number 65534 comes out at once, 65535 never comes, and 2 forces 0 out; of the four units that come
out, that of 0 is missing, because its frame begins after a gap.  Five numbers further on the gap lies behind the turn
of the circle. -/
theorem rotation_unnoticed_across_turn :
    let uses : List (Reorder.Use Rtp.Packet) :=
      [.add 65534 (lonePacket 65534), .collect, .add 0 (lonePacket 0), .add 1 (lonePacket 1), .add 2 (lonePacket 2),
        .collect]
    let l := (create 2 (.xor 0x5a) { limit := 8 } 4).after (fun _ pool => pool) uses
    let l' := (create 2 (.xor 0x5a) { limit := 8 } 4).after (fun _ pool => pool) (uses.map (.rotate 5))
    l.answers.map (fun answer => answer.toOption.join.isSome) = [true, false, true, true] ∧
      l.reorder.cursor = some 3 ∧ l'.answers = l.answers ∧ l'.released = l.released.map (.rotate 5) ∧
      l'.reorder.cursor = some 8 := by
  intro uses l l'
  have h := rotation_unnoticed 2 (Cipher.xor_ignoresNumbers 0x5a) { limit := 8 } 4 (fun _ pool => pool) uses 5
  obtain ⟨hanswers, -, -, -, -, hreleased, hcursor⟩ := h
  exact ⟨by decide +kernel, by decide +kernel, hanswers, hreleased, hcursor⟩

end Line
end VideoTransport
