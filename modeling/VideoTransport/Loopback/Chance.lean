import VideoTransport.Decimal.Binary
import VideoTransport.Decimal.Digits
/-!
# Chance — things that happen now and then

A draw is one of 2^53 equally likely numbers.  A chance is how many of them make the thing happen, so that a chance of
nought never comes true and a full one always does (`never_fires`, `always_fires`).
-/
namespace VideoTransport
namespace Loopback

/-- How many different draws there are. -/
def drawCount : Nat := 9007199254740992

/-- One draw of the dice. -/
abbrev Draw := Fin drawCount

/-- A draw from any number. -/
def Draw.ofNat (n : Nat) : Draw := ⟨n % drawCount, Nat.mod_lt _ (by decide)⟩

/-- Scatter sixty-four bits, so that neighbouring numbers have nothing in common. -/
def scatter (x : UInt64) : UInt64 :=
  let x := (x ^^^ (x >>> 30)) * 0xbf58476d1ce4e5b9
  let x := (x ^^^ (x >>> 27)) * 0x94d049bb133111eb
  x ^^^ (x >>> 31)

/-- Dice whose throws follow from a seed. -/
def dice (seed : UInt64) (n : Nat) : Draw :=
  Draw.ofNat (scatter (seed + UInt64.ofNat (n + 1) * 0x9e3779b97f4a7c15) >>> 11).toNat

/-- The draws below `favourable` make the thing happen. -/
structure Chance where
  favourable : Nat
  deriving DecidableEq, Repr

namespace Chance

def never : Chance := ⟨0⟩

def always : Chance := ⟨drawCount⟩

/-- Whether a draw makes the thing happen. -/
def fires (c : Chance) (d : Draw) : Bool := d.val < c.favourable

@[simp] theorem never_fires (d : Draw) : never.fires d = false := by simp [fires, never]

@[simp] theorem always_fires (d : Draw) : always.fires d = true := by simp [fires, always]

/-! ## Chances written as numbers -/

/-- The least whole number that is not below `num / den`. -/
def ceilDiv (num den : Nat) : Nat := (num + den - 1) / den

/-- The chance of a double: a draw counts as a multiple of 2^-53 and makes the thing happen when it lies below the
double. -/
def ofBits (bits : UInt64) : Chance :=
  match Decimal.Reading.ofBits bits with
  | .nan => never
  | .infinite negative => if negative then never else always
  | .finite true _ => never
  | .finite false b =>
    let e := b.exp + 53
    ⟨min drawCount (if e < 0 then ceilDiv b.mant (Nat.pow 2 e.natAbs) else b.mant * Nat.pow 2 e.natAbs)⟩

/-- The double nearest to `digits · 10^place`. -/
def nearest (digits : Nat) (place : Int) : Float :=
  let lead := (Decimal.digitsOf digits).length + place
  if digits = 0 || lead < -400 then 0.0
  else if 400 < lead then 1.0 / 0.0
  else Float.ofScientific digits (place < 0) place.natAbs

/-- The exponent behind a decimal, if it has one. -/
def exponent? : List Char → Option Int
  | [] => some 0
  | c :: cs =>
    if c = 'e' || c = 'E' then
      let (negative, digits) := match cs with
        | '-' :: digits => (true, digits)
        | '+' :: digits => (false, digits)
        | digits => (false, digits)
      if digits.isEmpty || !digits.all Char.isDigit then none
      else some (if negative then -Decimal.naturalOf digits else Decimal.naturalOf digits)
    else none

/-- Read a decimal without a sign: digits, at least one of them, with a point anywhere, and perhaps an exponent. -/
def decimal? (cs : List Char) : Option Float :=
  let (whole, cs) := cs.span Char.isDigit
  let (fraction, cs) := match cs with
    | '.' :: cs => cs.span Char.isDigit
    | cs => ([], cs)
  if whole.isEmpty && fraction.isEmpty then none
  else (exponent? cs).map fun e => nearest (Decimal.naturalOf (whole ++ fraction)) (e - fraction.length)

/-- Read a number without a sign; infinity and what is no number have names, in any letter case. -/
def magnitude? (cs : List Char) : Option Float :=
  let name := String.ofList (cs.map Char.toLower)
  if name = "inf" || name = "infinity" then some (1.0 / 0.0)
  else if name = "nan" then some (0.0 / 0.0)
  else decimal? cs

/-- Read a chance; one written with a minus never comes true. -/
def ofText? (text : String) : Option Chance :=
  match text.toList with
  | '-' :: cs => (magnitude? cs).map fun _ => never
  | '+' :: cs => (magnitude? cs).map fun x => ofBits x.toBits
  | cs => (magnitude? cs).map fun x => ofBits x.toBits

end Chance
end Loopback
end VideoTransport
