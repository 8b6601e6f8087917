import VideoTransport.Decimal.Digits
import VideoTransport.Json.Failure
/-!
# Number — number literals

A literal is kept as it is written until someone asks for its value.  A literal without point and exponent is an
integer when sixty-four bits hold it; any other is a double.  The double is made from as many leading digits as
sixty-four bits hold, scaled by one power of ten at a time, and so it is not always the nearest one.
-/
namespace VideoTransport
namespace Json

/-- A number as it is written; `fraction` is empty when there is no point. -/
structure Literal where
  negative : Bool
  whole : List Char
  fraction : List Char
  /-- Whether the exponent is negative, and its digits. -/
  exponent : Option (Bool × List Char)
  deriving DecidableEq

/-- The value of a literal. -/
inductive Number where
  | integer (n : Int)
  | float (x : Float)

namespace Literal

/-! ## Reading the literal -/

/-- A digit must stand at the head of `rest`, but does not. -/
def lacksDigit (rest : List Char) : Stop := if rest.isEmpty then .ended else .malformed

/-- A leading zero stands alone. -/
def readWhole (cs : List Char) : Except Stop (List Char × List Char) :=
  match cs.span Char.isDigit with
  | ([], rest) => .error (lacksDigit rest)
  | ('0' :: _ :: _, _) => .error .malformed
  | (digits, rest) => .ok (digits, rest)

def readFraction : List Char → Except Stop (List Char × List Char)
  | '.' :: cs =>
    match cs.span Char.isDigit with
    | ([], rest) => .error (lacksDigit rest)
    | (digits, rest) => .ok (digits, rest)
  | cs => .ok ([], cs)

def readSign : List Char → Bool × List Char
  | '-' :: cs => (true, cs)
  | '+' :: cs => (false, cs)
  | cs => (false, cs)

def readExponent (cs : List Char) : Except Stop (Option (Bool × List Char) × List Char) :=
  match cs with
  | [] => .ok (none, [])
  | c :: tail =>
    if c = 'e' || c = 'E' then
      let (negative, cs) := readSign tail
      match cs.span Char.isDigit with
      | ([], rest) => .error (lacksDigit rest)
      | (digits, rest) => .ok (some (negative, digits), rest)
    else .ok (none, c :: tail)

/-- Read a literal that starts with a minus or a digit. -/
def read (cs : List Char) : Except Stop (Literal × List Char) := do
  let (negative, cs) := match cs with
    | '-' :: tail => (true, tail)
    | cs => (false, cs)
  let (whole, cs) ← readWhole cs
  let (fraction, cs) ← readFraction cs
  let (exponent, cs) ← readExponent cs
  return (⟨negative, whole, fraction, exponent⟩, cs)

/-! ## The value -/

/-- Append digits to a significand as long as it stays below 2^64, and return the digits left over. -/
def absorb (significand : Nat) : List Char → Nat × List Char
  | [] => (significand, [])
  | c :: cs =>
    let grown := 10 * significand + Decimal.digitValue c
    if grown < UInt64.size then absorb grown cs else (significand, c :: cs)

def powerOfTen (n : Nat) : Float := Float.ofScientific 1 false n

/-- Scale by a power of ten, in steps of at most 10^308; too large a result is refused. -/
def scale : Nat → Float → Int → Option Float
  | 0, x, _ => some x
  | fuel + 1, x, e =>
    if e.natAbs ≤ 308 then
      if 0 ≤ e then
        let y := x * powerOfTen e.natAbs
        if y.isInf then none else some y
      else some (x / powerOfTen e.natAbs)
    else if x == 0.0 then some x
    else if 0 ≤ e then none
    else scale fuel (x / powerOfTen 308) (e + 308)

/-- The widest exponent that is counted. -/
def exponentLimit : Nat := 2147483647

/-- The double of a literal, or nothing when it is out of range. -/
def float (l : Literal) : Option Float :=
  let (whole, unread) := absorb 0 l.whole
  let (significand, dropped) := absorb whole l.fraction
  let place : Int := unread.length - (l.fraction.length - dropped.length : Nat)
  let x := significand.toUInt64.toFloat
  let magnitude := match l.exponent with
    | none => scale 8 x place
    | some (negative, digits) =>
      let e := Decimal.naturalOf digits
      if exponentLimit < e then
        if significand ≠ 0 && !negative then none else some 0.0
      else
        let total := if negative then place - e else place + e
        scale 8 x (max (-(exponentLimit : Int) - 1) (min exponentLimit total))
  magnitude.map fun x => if l.negative then -x else x

/-- Integers run from -2^63 to 2^64 - 1; a negative zero is a double. -/
def value (l : Literal) : Except Stop Number :=
  let n := Decimal.naturalOf l.whole
  if l.fraction.isEmpty && l.exponent.isNone && n < UInt64.size &&
      (!l.negative || (n ≠ 0 && n ≤ UInt64.size / 2)) then
    .ok (.integer (if l.negative then -n else n))
  else
    match l.float with
    | some x => .ok (.float x)
    | none => .error .malformed

end Literal

def Number.found : Number → Found
  | .integer n => .integer n
  | .float x => .float x

end Json
end VideoTransport
