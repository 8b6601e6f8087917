/-!
# Digits — natural numbers in decimal
-/
namespace VideoTransport
namespace Decimal

def digitsOf (n : Nat) : List Char := Nat.toDigits 10 n

def digitValue (c : Char) : Nat := c.toNat - 48

/-- The number that a list of digits writes. -/
def naturalOf (digits : List Char) : Nat := digits.foldl (fun n c => 10 * n + digitValue c) 0

end Decimal
end VideoTransport
