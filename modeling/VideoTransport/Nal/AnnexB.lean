import VideoTransport.Bytes
/-!
# AnnexB — bitstreams cut by start codes

An access unit is a run of NAL units, each behind a start code `00 00 01` or `00 00 00 01`.  `stretches` cuts a
bitstream at its start codes, `nalUnits` keeps the stretches that hold a NAL unit, and `join` puts NAL units behind
four-octet start codes.
-/
namespace VideoTransport
namespace AnnexB

def startCode : Bytes := [0, 0, 0, 1]

/-- Whether a bitstream opens with a start code of three or four octets. -/
def opensWithStartCode : Bytes → Bool
  | 0 :: 0 :: 1 :: _ => true
  | 0 :: 0 :: 0 :: 1 :: _ => true
  | _ => false

/-- Cut at start codes from left to right, the longer code first; `current` holds the stretch being read and `done`
those before it, both in reverse. -/
def cut : Bytes → Bytes → List Bytes → List Bytes
  | 0 :: 0 :: 0 :: 1 :: rest, current, done => cut rest [] (current.reverse :: done)
  | 0 :: 0 :: 1 :: rest, current, done => cut rest [] (current.reverse :: done)
  | b :: rest, current, done => cut rest (b :: current) done
  | [], current, done => (current.reverse :: done).reverse

/-- The stretches between start codes: what stands before the first code, then what stands behind each. -/
def stretches (data : Bytes) : List Bytes := cut data [] []

/-- The NAL units of a bitstream: the stretches behind start codes that are not empty. -/
def nalUnits (data : Bytes) : List Bytes := (stretches data).tail.filter fun nal => !nal.isEmpty

/-- NAL units, each behind a four-octet start code. -/
def join (nals : List Bytes) : Bytes := nals.flatMap (startCode ++ ·)

/-- The normal form of a bitstream: its NAL units behind four-octet start codes. -/
def normalize (data : Bytes) : Bytes := join (nalUnits data)

end AnnexB
end VideoTransport
