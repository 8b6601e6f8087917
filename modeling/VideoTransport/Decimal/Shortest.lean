import VideoTransport.Decimal.Binary
import VideoTransport.Decimal.Digits
/-!
# Shortest — the fewest digits that read back

A double stands for an interval of real numbers, those that round to it; the ends belong to it when the significand is
even.  Of the decimals inside that interval the text shows one with the fewest digits, and of those the one nearest to
the double.  Two may be equally near; which of them is shown is for the format to say.
-/
namespace VideoTransport
namespace Decimal

/-! ## The digits -/

/-- A comparison scale: `m · 2^exp / 10^place` is `m · up / down`. -/
structure Scale where
  up : Nat
  down : Nat

/-- The scale that measures multiples of a quarter unit of `b` in units of `10^place`. -/
def Scale.at (b : Binary) (place : Int) : Scale :=
  let e := b.exp - 2
  { up := Nat.pow 2 e.toNat * Nat.pow 10 (-place).toNat
    down := Nat.pow 2 (-e).toNat * Nat.pow 10 place.toNat }

/-- The greatest `e` with `10^e` at most the value, for a value that is not zero. -/
def leadingPlace (b : Binary) : Int :=
  let s := Scale.at b 0
  let whole := 4 * b.mant * s.up / s.down
  if whole ≠ 0 then (digitsOf whole).length - 1
  else
    let rec climb : Nat → Nat → Nat → Int
      | 0, place, _ => -place
      | fuel + 1, place, num => if s.down ≤ num then -place else climb fuel (place + 1) (num * 10)
    climb 400 0 (4 * b.mant * s.up)

/-- Which of two decimals is shown when both are equally near. -/
inductive Tie where
  /-- The one whose last digit is even. -/
  | toEven
  /-- The one farther from zero. -/
  | away
  deriving DecidableEq, Repr

/-- Whether a tie between `below` and the next number goes to `below`. -/
def Tie.takesBelow : Tie → Nat → Bool
  | .toEven, below => below % 2 = 0
  | .away, _ => false

/-- The multiple of `10^place` closest to the value among those inside the interval, if there is one. -/
def candidate (tie : Tie) (b : Binary) (place : Int) : Option Nat :=
  let s := Scale.at b place
  let low := (4 * b.mant - if b.narrowBelow then 1 else 2) * s.up
  let mid := 4 * b.mant * s.up
  let high := (4 * b.mant + 2) * s.up
  let closed := b.mant % 2 = 0
  let inside (c : Nat) : Bool :=
    let v := c * s.down
    if closed then low ≤ v && v ≤ high else low < v && v < high
  let below := mid / s.down
  let above := below + 1
  match inside below, inside above with
  | true, true =>
    let toBelow := mid - below * s.down
    let toAbove := above * s.down - mid
    if toBelow < toAbove then some below
    else if toAbove < toBelow then some above
    else if tie.takesBelow below then some below else some above
  | true, false => some below
  | false, true => some above
  | false, false => none

/-- Digits `d` and place `p` such that `d · 10^p` is the chosen decimal; seventeen digits always suffice. -/
def shortest (tie : Tie) (b : Binary) : Nat × Int :=
  let lead := leadingPlace b
  let rec seek : Nat → Int → Nat × Int
    | 0, place => (4 * b.mant * (Scale.at b place).up / (Scale.at b place).down, place)
    | fuel + 1, place =>
      match candidate tie b place with
      | some c => (c, place)
      | none => seek fuel (place - 1)
  seek 18 lead

/-- Drop the zeros at the end of a number, counting them into its place. -/
def trimZeros : Nat → Nat → Int → Nat × Int
  | 0, n, place => (n, place)
  | fuel + 1, n, place => if n ≠ 0 && n % 10 = 0 then trimZeros fuel (n / 10) (place + 1) else (n, place)

/-! ## The text -/

/-- How a format writes the digits of a double. -/
structure Style where
  /-- The least exponent of the leading digit that is still written without an exponent. -/
  leastPositional : Int
  /-- The greatest such exponent. -/
  greatestPositional : Int
  /-- What stands before an exponent that is not negative. -/
  plus : String
  tie : Tie
  nan : String
  infinity : String

/-- The text of the double with these bits.  A whole number keeps one zero after the point; an exponent has no leading
zeros. -/
def Style.render (style : Style) (bits : UInt64) : String :=
  match Reading.ofBits bits with
  | .nan => style.nan
  | .infinite negative => (if negative then "-" else "") ++ style.infinity
  | .finite negative b =>
    let sign := if negative then "-" else ""
    if b.mant = 0 then sign ++ "0.0"
    else
      let (c, p) := shortest style.tie b
      let (n, place) := trimZeros 20 c p
      let digits := digitsOf n
      let lead : Int := place + digits.length - 1
      let body :=
        if lead < style.leastPositional || style.greatestPositional < lead then
          let mantissa := match digits with
            | [] => []
            | [d] => [d]
            | d :: rest => d :: '.' :: rest
          let exponent := digitsOf lead.natAbs
          mantissa ++ 'e' :: ((if lead < 0 then ['-'] else style.plus.toList) ++ exponent)
        else if lead < 0 then
          '0' :: '.' :: (List.replicate (lead.natAbs - 1) '0' ++ digits)
        else if 0 ≤ place then
          digits ++ List.replicate place.natAbs '0' ++ ['.', '0']
        else
          digits.take (lead.natAbs + 1) ++ '.' :: digits.drop (lead.natAbs + 1)
      sign ++ String.ofList body

end Decimal
end VideoTransport
