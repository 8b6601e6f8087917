import VideoTransport.Bytes
import VideoTransport.Fault
/-!
# Payload — how NAL units ride in packets

A packet carries either one whole NAL unit or a fragment of one.  A fragment opens with two octets: the indicator,
which keeps the upper three bits of the NAL header beside the type 28, and the fragment header, which holds the NAL
type and says whether the fragment is the first or the last.
-/
namespace VideoTransport

namespace Nal

/-- The type of an instantaneous refresh picture, which makes its unit a key frame. -/
def refresh : UInt8 := 5
def sequenceParameters : UInt8 := 7
def pictureParameters : UInt8 := 8
def fragment : UInt8 := 28

/-- The type in the lower five bits of a NAL header. -/
def typeOf (header : UInt8) : UInt8 := header &&& 0x1f

/-- The type of a NAL unit, if it has a header at all. -/
def kind? : Bytes → Option UInt8
  | [] => none
  | header :: _ => some (typeOf header)

/-- Whether a NAL unit is a refresh picture. -/
def isRefresh (nal : Bytes) : Bool := kind? nal = some refresh

/-- The types that a packet may carry whole. -/
def isSingle (kind : UInt8) : Bool := 1 ≤ kind && kind ≤ 23

end Nal

/-- A piece of a NAL unit as it rides in a packet. -/
structure Fragment where
  /-- The octet whose upper three bits are those of the NAL header. -/
  header : UInt8
  /-- The type of the fragmented NAL unit. -/
  kind : UInt8
  isFirst : Bool
  isLast : Bool
  body : Bytes
  deriving DecidableEq

namespace Fragment

def headerLength : Nat := 2

def indicator (f : Fragment) : UInt8 := f.header &&& 0xe0 ||| Nal.fragment

def flags (f : Fragment) : UInt8 :=
  (if f.isFirst then 0x80 else 0) ||| (if f.isLast then 0x40 else 0) ||| f.kind

def write (f : Fragment) : Bytes := f.indicator :: f.flags :: f.body

/-- The header of the NAL unit that the fragment belongs to. -/
def nalHeader (f : Fragment) : UInt8 := f.header &&& 0xe0 ||| f.kind

end Fragment

inductive Payload where
  | single (nal : Bytes)
  | fragment (f : Fragment)
  deriving DecidableEq

/-- Read a payload by the type in its first octet. -/
def Payload.read : Bytes → Except Malformation Payload
  | [] => .error .truncated
  | header :: rest =>
    let kind := Nal.typeOf header
    if Nal.isSingle kind then .ok (.single (header :: rest))
    else if kind = Nal.fragment then
      match rest with
      | [] => .error .truncated
      | flags :: body =>
        .ok (.fragment ⟨header, Nal.typeOf flags, flags &&& 0x80 ≠ 0, flags &&& 0x40 ≠ 0, body⟩)
    else .error (.unsupportedType kind)

end VideoTransport
