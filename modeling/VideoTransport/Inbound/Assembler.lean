import VideoTransport.Buffer.AccessUnit
import VideoTransport.Inbound.Frame
import VideoTransport.Rtp
/-!
# Assembler — packets into access units

Packets are expected in order.  A gap before a packet breaks the frame it belongs to, so an access unit comes out only
when all its packets have come.  The packet with the marker ends its frame, whatever becomes of it.  At most `limit`
frames are in the making; a new one takes the place of the frame that was touched least recently.
-/
namespace VideoTransport

structure AssemblerStats where
  completed : Nat := 0
  /-- Frames given up at their end or to make room. -/
  dropped : Nat := 0
  /-- Packets that could not be decrypted or read. -/
  malformed : Nat := 0
  deriving DecidableEq, Repr

structure Assembler where
  cipher : Cipher
  pool : Pool
  /-- How many frames may be in the making; at least one. -/
  limit : Nat
  frames : List Frame := []
  /-- How many packets have been processed. -/
  clock : Nat := 0
  /-- The number of the last packet processed. -/
  lastSequence : Option Serial := none
  stats : AssemblerStats := {}

namespace Assembler

def defaultLimit : Nat := 32

def create (cipher : Cipher) (pool : Pool) (limit : Nat) : Assembler := { cipher, pool, limit := max limit 1 }

def pending (a : Assembler) : Nat := a.frames.length

/-! ## The table of frames -/

def find? (a : Assembler) (timestamp : UInt32) : Option Frame := a.frames.find? (·.timestamp = timestamp)

/-- The frame of a list that was touched least recently, `best` being a candidate. -/
def leastRecent (best : Frame) (frames : List Frame) : Frame :=
  frames.foldl (fun best f => if f.lastUsed < best.lastUsed then f else best) best

def remove (timestamp : UInt32) (frames : List Frame) : List Frame := frames.filter (·.timestamp ≠ timestamp)

/-- Give up the frame that was touched least recently. -/
def evict (a : Assembler) : Assembler :=
  match a.frames with
  | [] => a
  | f :: rest =>
    { a with
      frames := remove (leastRecent f rest).timestamp a.frames
      stats := { a.stats with dropped := a.stats.dropped + 1 } }

def replace (f : Frame) (frames : List Frame) : List Frame :=
  frames.map fun g => if g.timestamp = f.timestamp then f else g

/-- Whether a packet number follows on another one, or on nothing. -/
def followsOn (previous : Option Serial) (s : Serial) : Bool :=
  match previous with
  | none => true
  | some p => s = p + 1

/-- Count the packet and find its frame, or begin it.  A gap since the frame's latest packet breaks it; a new frame
is broken by a gap since the last packet of any frame, which may have swallowed its first packets. -/
def touch (a : Assembler) (timestamp : UInt32) (s : Serial) : Frame × Assembler :=
  let clock := a.clock + 1
  let previous := a.lastSequence
  let a := { a with clock, lastSequence := some s }
  match a.find? timestamp with
  | some f =>
    let content := if s = f.lastSequence + 1 then f.content else .broken
    ({ f with content, lastSequence := s, lastUsed := clock }, a)
  | none =>
    let a := if a.limit ≤ a.frames.length then a.evict else a
    let content := if followsOn previous s then .intact [] none else .broken
    let f : Frame := ⟨timestamp, content, s, clock⟩
    (f, { a with frames := a.frames ++ [f] })

/-! ## Packets -/

def open? (a : Assembler) (p : Rtp.Packet) : Option Payload :=
  match a.cipher.decrypt p.header.packetMeta p.payload with
  | .error _ => none
  | .ok data => (Payload.read data).toOption

/-- End a frame: it leaves the table, and if it is finished, its bitstream goes into a buffer of the pool.  Without a
free buffer the frame is lost. -/
def finish (a : Assembler) (f : Frame) : Assembler × Except Fault (Option AccessUnit) :=
  let a := { a with frames := remove f.timestamp a.frames }
  match f.content.finished? with
  | none => ({ a with stats := { a.stats with dropped := a.stats.dropped + 1 } }, .ok none)
  | some nals =>
    match a.pool.acquire with
    | .error fault => (a, .error fault)
    | .ok (buffer, pool) =>
      let filled := buffer.append (AnnexB.join nals)
      match AccessUnit.ofBuffer filled (nals.any Nal.isRefresh) f.timestamp 0 with
      | .error fault => ({ a with pool := (filled.release pool).2.2 }, .error fault)
      | .ok unit => ({ a with pool, stats := { a.stats with completed := a.stats.completed + 1 } }, .ok (some unit))

/-- Process one packet; a unit comes out when the packet ends its frame and the frame is finished. -/
def process (a : Assembler) (p : Rtp.Packet) : Assembler × Except Fault (Option AccessUnit) :=
  let (f, a) := a.touch p.header.timestamp p.header.sequence
  let (content, malformed) := match a.open? p with
    | none => (FrameContent.broken, 1)
    | some payload => (f.content.add payload, 0)
  let f := { f with content }
  let a := { a with
    frames := replace f a.frames
    stats := { a.stats with malformed := a.stats.malformed + malformed } }
  if p.header.marker then a.finish f else (a, .ok none)

def describe (a : Assembler) : String :=
  "FrameAssembler \x7b max_assemblies: " ++ toString a.limit ++ ", pending: " ++ toString a.pending ++
    ", stats: AssemblerStats \x7b completed: " ++ toString a.stats.completed ++
    ", dropped: " ++ toString a.stats.dropped ++ ", malformed: " ++ toString a.stats.malformed ++ " \x7d \x7d"

end Assembler
end VideoTransport
