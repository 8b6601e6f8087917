import VideoTransport.Cipher
import VideoTransport.Fault
/-!
# Rtp — media packets

A packet is a header of twelve octets and a payload.  Headers written here have no contributing sources, no extension
and no padding; packets of other senders may, and reading skips them.
-/
namespace VideoTransport
namespace Rtp

/-- The octets of a header without contributing sources and extension. -/
def headerLength : Nat := 12

structure Header where
  /-- Set on the last packet of an access unit. -/
  marker : Bool
  payloadType : UInt8
  sequence : Serial
  /-- Media time in 90 kHz units, modulo 2^32. -/
  timestamp : UInt32
  /-- The source of the stream. -/
  ssrc : UInt32
  deriving DecidableEq, Repr

namespace Header

def packetMeta (h : Header) : PacketMeta := ⟨h.timestamp, h.sequence, h.ssrc, h.marker⟩

/-- The octet that holds the marker above the seven bits of the payload type. -/
def markerOctet (h : Header) : UInt8 := (if h.marker then 0x80 else 0) ||| (h.payloadType &&& 0x7f)

def write (h : Header) : Bytes :=
  0x80 :: h.markerOctet :: (Bytes.ofWord16 h.sequence ++ Bytes.ofWord32 h.timestamp ++ Bytes.ofWord32 h.ssrc)

@[simp] theorem length_write (h : Header) : h.write.length = headerLength := rfl

end Header

structure Packet where
  header : Header
  payload : Bytes
  deriving DecidableEq, Repr

namespace Packet

/-- Drop `4 * words` octets, which must be there. -/
def skipWords (words : Nat) (data : Bytes) : Except Malformation Bytes :=
  if data.length < 4 * words then .error .truncated else .ok (data.drop (4 * words))

/-- Drop a header extension: two octets of its own, its length in words, and the words. -/
def skipExtension : Bytes → Except Malformation Bytes
  | _ :: _ :: high :: low :: rest => skipWords (Bytes.word16 high low).toNat rest
  | _ => .error .truncated

/-- Drop the padding, whose length, itself included, the last octet tells. -/
def stripPadding (data : Bytes) : Except Malformation Bytes :=
  match data.getLast? with
  | none => .error .badPadding
  | some pad =>
    if pad = 0 || data.length < pad.toNat then .error .badPadding
    else .ok (data.take (data.length - pad.toNat))

/-- Read a datagram. -/
def parse : Bytes → Except Malformation Packet
  | b0 :: b1 :: s1 :: s0 :: t3 :: t2 :: t1 :: t0 :: c3 :: c2 :: c1 :: c0 :: rest =>
    if b0 >>> 6 ≠ 2 then .error .badVersion
    else do
      let rest ← skipWords (b0 &&& 0x0f).toNat rest
      let rest ← if b0 &&& 0x10 ≠ 0 then skipExtension rest else .ok rest
      let payload ← if b0 &&& 0x20 ≠ 0 then stripPadding rest else .ok rest
      return { header :=
                { marker := b1 &&& 0x80 ≠ 0
                  payloadType := b1 &&& 0x7f
                  sequence := Bytes.word16 s1 s0
                  timestamp := Bytes.word32 t3 t2 t1 t0
                  ssrc := Bytes.word32 c3 c2 c1 c0 }
               payload }
  | _ => .error .truncated

end Packet
end Rtp
end VideoTransport
