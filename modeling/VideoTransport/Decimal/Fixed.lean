import VideoTransport.Decimal.Binary
import VideoTransport.Decimal.Digits
/-!
# Fixed — a double with a fixed number of decimal places

The exact value is rounded to the nearest multiple of a power of ten, a tie going to the even neighbour.  The sign of
a negative number is kept also when nothing but zeros remains.
-/
namespace VideoTransport
namespace Decimal

/-- The value times `10^places`, rounded to a whole number. -/
def scaled (places : Nat) (b : Binary) : Nat :=
  if b.exp < 0 then roundHalfEven (b.mant * Nat.pow 10 places) (Nat.pow 2 b.exp.natAbs)
  else b.mant * Nat.pow 10 places * Nat.pow 2 b.exp.natAbs

/-- The digits of `n`, with a point before the last `places` of them. -/
def pointed (places n : Nat) : List Char :=
  if places = 0 then digitsOf n
  else
    let fraction := digitsOf (n % Nat.pow 10 places)
    digitsOf (n / Nat.pow 10 places) ++ '.' :: (List.replicate (places - fraction.length) '0' ++ fraction)

/-- The text of the double with these bits, with `places` digits after the point. -/
def fixed (places : Nat) (bits : UInt64) : String :=
  match Reading.ofBits bits with
  | .nan => "NaN"
  | .infinite negative => if negative then "-inf" else "inf"
  | .finite negative b =>
    String.ofList ((if negative then ['-'] else []) ++ pointed places (scaled places b))

end Decimal
end VideoTransport
