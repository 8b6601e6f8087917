import VideoTransport.Json.Failure
/-!
# Fault — what can go wrong

Every failure has a cause of its own and one wording.  Delivery is best effort, so most faults concern a single
packet or message and end there; only an exhausted pool, a failing transport and a closed channel reach the caller.
-/
namespace VideoTransport

/-- What makes a datagram unreadable. -/
inductive Malformation where
  /-- Shorter than its header says, or than any header. -/
  | truncated
  | badVersion
  /-- Padding of no octets, or of more than there are. -/
  | badPadding
  /-- A report whose length word leaves no room for what it must hold. -/
  | badLength
  /-- A packet or payload type that is not handled. -/
  | unsupportedType (n : UInt8)
  deriving DecidableEq, Repr

def Malformation.message : Malformation → String
  | .truncated => "truncated header"
  | .badVersion => "version is not 2"
  | .badPadding => "invalid padding"
  | .badLength => "length field mismatch"
  | .unsupportedType n => "unsupported type " ++ toString n.toNat

inductive SettingFault where
  /-- The packet size limit leaves no room for a fragment. -/
  | mtuTooSmall (mtu least : Nat)
  | mtuWithoutRoom (mtu : Nat)
  | payloadTypeTooWide (payloadType : UInt8)
  | payloadTypeCollides (payloadType : UInt8)
  | zeroClockRate
  | zeroCapacity
  | wrapOrder (low high : UInt16)
  | other (text : String)
  deriving DecidableEq, Repr

def SettingFault.message : SettingFault → String
  | .mtuTooSmall mtu least => "mtu " ++ toString mtu ++ " must exceed " ++ toString least
  | .mtuWithoutRoom mtu => "mtu " ++ toString mtu ++ " leaves no room for payload"
  | .payloadTypeTooWide n => "payload type " ++ toString n.toNat ++ " does not fit in 7 bits"
  | .payloadTypeCollides n => "payload type " ++ toString n.toNat ++ " collides with RTCP packet types"
  | .zeroClockRate => "clock_rate must be nonzero"
  | .zeroCapacity => "reorder_capacity, max_assemblies and pool_capacity must be nonzero"
  | .wrapOrder low high =>
    "wrap_low " ++ toString low.toNat ++ " must be below wrap_high " ++ toString high.toNat
  | .other text => text

inductive Fault where
  /-- The transport below failed. -/
  | io (text : String)
  | malformed (cause : Malformation)
  /-- A fragment without its predecessor in the frame with this timestamp. -/
  | fragmentGap (timestamp : UInt32)
  | capacityExceeded (limit : Nat)
  | cipher (text : String)
  /-- A control message that cannot be read. -/
  | control (failure : Json.Failure)
  | poolExhausted (limit : Nat)
  | noStartCode
  | setting (cause : SettingFault)
  | channelClosed

namespace Fault

def message : Fault → String
  | .io text => "I/O error: " ++ text
  | .malformed cause => "malformed packet: " ++ cause.message
  | .fragmentGap timestamp => "fragment gap in frame with timestamp " ++ toString timestamp.toNat
  | .capacityExceeded limit => "concurrent assembly limit of " ++ toString limit ++ " exceeded"
  | .cipher text => "cipher failure: " ++ text
  | .control (.mismatch cause) => "negotiation message parse error: " ++ cause.message
  | .control .malformed => "negotiation message parse error: malformed text"
  | .control .ended => "negotiation message parse error: unexpected end of text"
  | .poolExhausted limit => "buffer pool exhausted (" ++ toString limit ++ " buffers outstanding)"
  | .noStartCode => "access unit does not start with an Annex-B start code"
  | .setting cause => "invalid configuration: " ++ cause.message
  | .channelClosed => "control channel closed"

/-- Whether the fault ends with the packet or message that caused it. -/
def isRecoverable : Fault → Bool
  | .poolExhausted _ => false
  | .io _ => false
  | .channelClosed => false
  | _ => true

end Fault
end VideoTransport
