import VideoTransport.Nal.AnnexB
import VideoTransport.Nal.Payload
/-!
# Frame — one access unit in the making

A frame collects the NAL units of packets with one timestamp.  It is intact as long as every payload could be read,
the packets came without a gap, and fragments followed each other from a first to a last one.  A broken frame stays
broken.
-/
namespace VideoTransport

/-- The fragments of one NAL unit so far. -/
structure FragmentRun where
  kind : UInt8
  header : UInt8
  /-- The bodies, the latest first. -/
  bodies : List Bytes
  deriving DecidableEq, Repr

def FragmentRun.nal (r : FragmentRun) : Bytes := r.header :: r.bodies.reverse.flatten

inductive FrameContent where
  | broken
  /-- Whole NAL units, the latest first, and the fragments of one that is not yet finished. -/
  | intact (nals : List Bytes) (run : Option FragmentRun)
  deriving DecidableEq, Repr

namespace FrameContent

/-- Finish the run with its last fragment. -/
def close (isLast : Bool) (nals : List Bytes) (run : FragmentRun) : FrameContent :=
  if isLast then .intact (run.nal :: nals) none else .intact nals (some run)

/-- Put a fragment in its place; one without a place breaks the frame. -/
def addFragment (nals : List Bytes) (run : Option FragmentRun) (f : Fragment) : FrameContent :=
  match run with
  | none => if f.isFirst then close f.isLast nals ⟨f.kind, f.nalHeader, [f.body]⟩ else .broken
  | some r =>
    if f.isFirst || r.kind ≠ f.kind then .broken
    else close f.isLast nals { r with bodies := f.body :: r.bodies }

def add (c : FrameContent) (p : Payload) : FrameContent :=
  match c, p with
  | .broken, _ => .broken
  | .intact nals none, .single nal => .intact (nal :: nals) none
  | .intact _ (some _), .single _ => .broken
  | .intact nals run, .fragment f => addFragment nals run f

/-- The NAL units in order, if the frame is intact, has some, and none is unfinished. -/
def finished? : FrameContent → Option (List Bytes)
  | .broken => none
  | .intact _ (some _) => none
  | .intact [] none => none
  | .intact nals none => some nals.reverse

end FrameContent

structure Frame where
  timestamp : UInt32
  content : FrameContent
  /-- The number of its latest packet. -/
  lastSequence : UInt16
  /-- When it was last touched, in packets counted by the assembler. -/
  lastUsed : Nat
  deriving DecidableEq, Repr

end VideoTransport
