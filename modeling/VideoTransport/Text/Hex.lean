/-!
# Hex — hexadecimal digits

Digits are written in lower case and read in either; `hexValue_hexDigit` says that reading undoes writing.
-/
namespace VideoTransport
namespace Text

/-- The lower-case digit of a number below sixteen. -/
def hexDigit (n : Nat) : Char :=
  if n < 10 then Char.ofNat (48 + n) else Char.ofNat (87 + n)

/-- The number that a digit of either case stands for. -/
def hexValue? (c : Char) : Option Nat :=
  if c.isDigit then some (c.toNat - 48)
  else if 'a' ≤ c && c ≤ 'f' then some (c.toNat - 87)
  else if 'A' ≤ c && c ≤ 'F' then some (c.toNat - 55)
  else none

theorem hexValue_hexDigit : ∀ n : Fin 16, hexValue? (hexDigit n) = some n.val := by decide

end Text
end VideoTransport
