import VideoTransport.Bytes
/-!
# Base64 — octets as printable text

Three octets become four characters of the standard alphabet; a last group of one or two octets is filled up with
equals signs.
-/
namespace VideoTransport
namespace Base64

/-- The character for a number below sixty-four. -/
def symbol (n : Nat) : Char :=
  if n < 26 then Char.ofNat (65 + n)
  else if n < 52 then Char.ofNat (71 + n)
  else if n < 62 then Char.ofNat (n - 4)
  else if n = 62 then '+'
  else '/'

/-- The number that a character of the alphabet stands for. -/
def value? (c : Char) : Option Nat :=
  if 'A' ≤ c ∧ c ≤ 'Z' then some (c.toNat - 65)
  else if 'a' ≤ c ∧ c ≤ 'z' then some (c.toNat - 71)
  else if '0' ≤ c ∧ c ≤ '9' then some (c.toNat + 4)
  else if c = '+' then some 62
  else if c = '/' then some 63
  else none

def encode : Bytes → List Char
  | a :: b :: c :: rest =>
    symbol (a.toNat / 4) :: symbol (a.toNat % 4 * 16 + b.toNat / 16) ::
      symbol (b.toNat % 16 * 4 + c.toNat / 64) :: symbol (c.toNat % 64) :: encode rest
  | [a, b] =>
    [symbol (a.toNat / 4), symbol (a.toNat % 4 * 16 + b.toNat / 16), symbol (b.toNat % 16 * 4), '=']
  | [a] => [symbol (a.toNat / 4), symbol (a.toNat % 4 * 16), '=', '=']
  | [] => []

/-- Read text that consists of whole groups; bits that the padding stands for must be zero. -/
def decode : List Char → Option Bytes
  | [] => some []
  | w :: x :: y :: z :: rest => do
    let p ← value? w
    let q ← value? x
    if y = '=' && z = '=' then
      if rest.isEmpty && q % 16 = 0 then some [UInt8.ofNat (p * 4 + q / 16)] else none
    else
      let r ← value? y
      if z = '=' then
        if rest.isEmpty && r % 4 = 0 then
          some [UInt8.ofNat (p * 4 + q / 16), UInt8.ofNat (q * 16 + r / 4)]
        else none
      else
        let s ← value? z
        let tail ← decode rest
        some (UInt8.ofNat (p * 4 + q / 16) :: UInt8.ofNat (q * 16 + r / 4) :: UInt8.ofNat (r * 64 + s) :: tail)
  | _ => none

end Base64
end VideoTransport
