import VideoTransport.Bytes
import VideoTransport.Serial
/-!
# Cipher — protection of packet payloads

A cipher turns each payload into another one and back, knowing the header of its packet.  It declares how much a
payload may grow; whether it keeps to that is checked when packets are made.
-/
namespace VideoTransport

/-- What a cipher sees of a packet besides its payload. -/
structure PacketMeta where
  timestamp : UInt32
  sequence : Serial
  ssrc : UInt32
  marker : Bool
  deriving DecidableEq, Repr

/-- A transformation of payloads; either way may fail with a text. -/
structure Cipher where
  /-- By how many octets a payload may grow. -/
  overhead : Nat := 0
  encrypt : PacketMeta → Bytes → Except String Bytes
  decrypt : PacketMeta → Bytes → Except String Bytes

namespace Cipher

def identity : Cipher where
  encrypt _ data := .ok data
  decrypt _ data := .ok data

/-- The key of the exclusive-or cipher when none is given. -/
def defaultKey : UInt8 := 0x5a

/-- Combine every octet with one key octet; it hides nothing, but shows whether payloads pass through the cipher. -/
def xor (key : UInt8) : Cipher where
  encrypt _ data := .ok (data.map (· ^^^ key))
  decrypt _ data := .ok (data.map (· ^^^ key))

def describe (c : Cipher) : String :=
  "PayloadCipher \x7b overhead: " ++ toString c.overhead ++ ", .. \x7d"

end Cipher
end VideoTransport
