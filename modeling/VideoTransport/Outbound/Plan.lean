import VideoTransport.Nal.Payload
import VideoTransport.Rtp
/-!
# Plan — which packets an access unit takes

A NAL unit that fits into one packet travels whole; a longer one is cut into fragments of a fixed size, the last of
which may be shorter.  The marker stands on the last packet of the unit.  The plan does not depend on what the cipher
makes of the payloads.
-/
namespace VideoTransport

/-- How much of a NAL unit a packet holds. -/
structure Budget where
  /-- The longest NAL unit that travels whole. -/
  whole : Nat
  /-- The longest piece of a NAL unit in a fragment. -/
  piece : Nat
  deriving DecidableEq, Repr

/-- A packet before it is numbered and encrypted. -/
structure Draft where
  marker : Bool
  payload : Bytes
  deriving DecidableEq, Repr

namespace Plan

/-- Cut into slices of `size` octets; `fuel` bounds their number. -/
def slicesWithin (size : Nat) : Nat → Bytes → List Bytes
  | 0, _ => []
  | _, [] => []
  | fuel + 1, data => data.take size :: slicesWithin size fuel (data.drop size)

/-- Cut into slices of `size` octets, the last of which may be shorter. -/
def slices (size : Nat) (data : Bytes) : List Bytes := slicesWithin size data.length data

def fragments (size : Nat) (header : UInt8) (body : Bytes) : List Fragment :=
  let pieces := slices size body
  pieces.mapIdx fun i piece =>
    { header, kind := Nal.typeOf header, isFirst := i = 0, isLast := i + 1 = pieces.length, body := piece }

/-- The payloads that carry a NAL unit. -/
def payloads (b : Budget) (nal : Bytes) : List Bytes :=
  if nal.length ≤ b.whole then [nal]
  else match nal with
    | [] => []
    | header :: body => (fragments b.piece header body).map Fragment.write

/-- Put the marker on the last payload. -/
def markLast : List Bytes → List Draft
  | [] => []
  | [payload] => [⟨true, payload⟩]
  | payload :: rest => ⟨false, payload⟩ :: markLast rest

/-- The packets of an access unit with these NAL units. -/
def drafts (b : Budget) (nals : List Bytes) : List Draft := markLast (nals.flatMap (payloads b))

end Plan
end VideoTransport
