import VideoTransport.Buffer.Pool
import VideoTransport.Nal.AnnexB
/-!
# AccessUnit — one encoded frame

An access unit is a bitstream in a pooled buffer, with the time it belongs to.  It must open with a start code.
-/
namespace VideoTransport

/-- One encoded frame. -/
structure AccessUnit where
  buffer : Buffer
  isKeyFrame : Bool
  /-- Media time in 90 kHz units, modulo 2^32. -/
  timestamp : UInt32
  /-- Clock ticks at capture, as the producer gave them. -/
  captureTicks : Int
  deriving DecidableEq, Repr

namespace AccessUnit

/-- The bitstream, empty once the unit has been released. -/
def bytes (u : AccessUnit) : Bytes := u.buffer.bytes

/-- Take over a filled buffer; one without a start code is refused. -/
def ofBuffer (b : Buffer) (isKeyFrame : Bool) (timestamp : UInt32) (captureTicks : Int) : Except Fault AccessUnit :=
  if AnnexB.opensWithStartCode b.bytes then .ok ⟨b, isKeyFrame, timestamp, captureTicks⟩ else .error .noStartCode

/-- Copy a bitstream into a buffer of the pool. -/
def ofBytes (p : Pool) (data : Bytes) (isKeyFrame : Bool) (timestamp : UInt32) (captureTicks : Int) :
    Except Fault (AccessUnit × Pool) :=
  if AnnexB.opensWithStartCode data then do
    let (buffer, p) ← p.acquire
    return (⟨buffer.append data, isKeyFrame, timestamp, captureTicks⟩, p)
  else .error .noStartCode

/-- Give the buffer back, once. -/
def release (u : AccessUnit) (p : Pool) : AccessUnit × Pool :=
  let (_, b, p) := u.buffer.release p
  ({ u with buffer := b }, p)

def isReleased (u : AccessUnit) : Bool := u.buffer.isReleased

theorem release_of_unreleased {u : AccessUnit} (h : u.isReleased = false) (p : Pool) :
    (u.release p).2 = p.release u.bytes := by
  have hb : u.buffer.isReleased = false := h
  rw [release, Buffer.release, hb]
  rfl

/-- Give units back one after another. -/
def releaseAll (units : List AccessUnit) (p : Pool) : Pool := units.foldl (fun p u => (u.release p).2) p

/-- Every unit that is given back frees a buffer. -/
theorem releaseAll_keeps : ∀ {units : List AccessUnit} (p : Pool), (∀ u ∈ units, u.isReleased = false) →
    (releaseAll units p).limit = p.limit ∧ (releaseAll units p).outstanding = p.outstanding - units.length
  | [], _, _ => ⟨rfl, rfl⟩
  | u :: rest, p, h => by
    obtain ⟨hlimit, hout⟩ := releaseAll_keeps (p.release u.bytes) fun v hv => h v (List.mem_cons_of_mem u hv)
    rw [releaseAll, List.foldl_cons, release_of_unreleased (h u List.mem_cons_self)]
    refine ⟨hlimit, hout.trans ?_⟩
    show p.outstanding - 1 - rest.length = p.outstanding - (rest.length + 1)
    omega

def describe (u : AccessUnit) : String :=
  "EncodedAccessUnit \x7b buffer: " ++ u.buffer.describe ++ ", is_key_frame: " ++ toString u.isKeyFrame ++
    ", rtp_timestamp: " ++ toString u.timestamp.toNat ++ ", capture_ticks: " ++ toString u.captureTicks ++ " \x7d"

end AccessUnit
end VideoTransport
