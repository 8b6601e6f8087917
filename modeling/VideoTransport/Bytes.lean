import VideoTransport.Text.Hex
/-!
# Bytes — octet strings and the words written into them

Datagrams and access units are lists of octets.  Words go on the wire in network order, the most significant octet
first; `word16_ofWord16` and `word32_ofWord32` say that reading undoes writing.
-/
namespace VideoTransport

/-- A string of octets: a datagram, a payload or a piece of a bitstream. -/
abbrev Bytes := List UInt8

namespace Bytes

/-- The most octets that memory can be asked for at once.  Whether it has as many is left out everywhere; asking for
more ends a program. -/
def longest : Nat := 0x7fffffffffffffff

/-! ## Words -/

def ofWord16 (w : UInt16) : Bytes :=
  [UInt8.ofNat (w.toNat / 256), UInt8.ofNat w.toNat]

def ofWord32 (w : UInt32) : Bytes :=
  [UInt8.ofNat (w.toNat / 16777216), UInt8.ofNat (w.toNat / 65536), UInt8.ofNat (w.toNat / 256), UInt8.ofNat w.toNat]

def word16 (a b : UInt8) : UInt16 :=
  UInt16.ofNat (a.toNat * 256 + b.toNat)

def word32 (a b c d : UInt8) : UInt32 :=
  UInt32.ofNat (a.toNat * 16777216 + b.toNat * 65536 + c.toNat * 256 + d.toNat)

@[simp] theorem length_ofWord16 (w : UInt16) : (ofWord16 w).length = 2 := rfl

@[simp] theorem length_ofWord32 (w : UInt32) : (ofWord32 w).length = 4 := rfl

theorem word16_ofWord16 (w : UInt16) :
    word16 (UInt8.ofNat (w.toNat / 256)) (UInt8.ofNat w.toNat) = w := by
  apply UInt16.toNat_inj.mp
  have := w.toNat_lt
  simp only [word16, UInt16.toNat_ofNat', UInt8.toNat_ofNat']
  omega

theorem word32_ofWord32 (w : UInt32) :
    word32 (UInt8.ofNat (w.toNat / 16777216)) (UInt8.ofNat (w.toNat / 65536)) (UInt8.ofNat (w.toNat / 256))
      (UInt8.ofNat w.toNat) = w := by
  apply UInt32.toNat_inj.mp
  have := w.toNat_lt
  simp only [word32, UInt32.toNat_ofNat', UInt8.toNat_ofNat']
  omega

/-! ## Hexadecimal text -/

/-- Two lower-case hexadecimal digits an octet. -/
def toHex (bytes : Bytes) : String :=
  String.ofList (bytes.flatMap fun b => [Text.hexDigit (b.toNat / 16), Text.hexDigit (b.toNat % 16)])

/-- The octets that pairs of hexadecimal digits write. -/
def ofHexDigits? : List Char → Option Bytes
  | [] => some []
  | [_] => none
  | high :: low :: rest => do
    let high ← Text.hexValue? high
    let low ← Text.hexValue? low
    let rest ← ofHexDigits? rest
    return UInt8.ofNat (high * 16 + low) :: rest

def ofHex? (text : String) : Option Bytes := ofHexDigits? text.toList

end Bytes
end VideoTransport
