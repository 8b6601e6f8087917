/-!
# Binary — what a double says exactly

A finite double is a sign and a number `mant · 2^exp`.  The decimal modules work on this pair alone, in exact
arithmetic.
-/
namespace VideoTransport
namespace Decimal

/-- The magnitude `mant · 2^exp` of a finite double. -/
structure Binary where
  mant : Nat
  exp : Int
  /-- The next double below lies half as far away as the next one above. -/
  narrowBelow : Bool := false

/-- How many values the fraction of a double can take. -/
def fractionCount : Nat := Nat.pow 2 52

/-- What a double denotes. -/
inductive Reading where
  | nan
  | infinite (negative : Bool)
  | finite (negative : Bool) (magnitude : Binary)

/-- The sign and value that the sixty-four bits of a double stand for. -/
def Reading.ofBits (bits : UInt64) : Reading :=
  let negative := bits >>> 63 == 1
  let biased : Nat := bits.toNat / fractionCount % 2048
  let fraction : Nat := bits.toNat % fractionCount
  if biased = 2047 then
    if fraction = 0 then .infinite negative else .nan
  else if biased = 0 then
    .finite negative ⟨fraction, -1074, false⟩
  else
    .finite negative ⟨fractionCount + fraction, (biased : Int) - 1075, fraction = 0 && 1 < biased⟩

/-- The quotient nearest to `num / den`, a tie going to the even one. -/
def roundHalfEven (num den : Nat) : Nat :=
  let quotient := num / den
  let remainder := num % den
  if 2 * remainder < den then quotient
  else if den < 2 * remainder then quotient + 1
  else if quotient % 2 = 0 then quotient else quotient + 1

end Decimal
end VideoTransport
