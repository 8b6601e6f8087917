import VideoTransport.Decimal.Shortest
import VideoTransport.Text.Quoted
/-!
# Failure — why a JSON text is refused

A text may break the grammar, end too early, or hold well-formed JSON of the wrong shape.  Only the last kind has a
wording of its own.
-/
namespace VideoTransport
namespace Json

/-- Where the grammar gives out. -/
inductive Stop where
  /-- A character stands where the grammar allows none like it. -/
  | malformed
  /-- The text ends where more is needed. -/
  | ended
  deriving DecidableEq, Repr

/-- What stands in the text instead of the expected thing. -/
inductive Found where
  | null
  | boolean (b : Bool)
  | integer (n : Int)
  | float (x : Float)
  | string (s : String)
  | sequence
  | map

/-- How well-formed JSON can fail to be the thing that is read. -/
inductive Mismatch where
  | missingField (name : String)
  | duplicateField (name : String)
  | wrongType (found : Found) (expected : String)
  | wrongValue (found : Found) (expected : String)
  | wrongLength (length : Nat) (expected : String)
  | unknownVariant (name : String) (known : List String)

/-- The first thing wrong with a text, in the order in which it is read. -/
inductive Failure where
  | malformed
  | ended
  | mismatch (cause : Mismatch)

def Stop.failure : Stop → Failure
  | .malformed => .malformed
  | .ended => .ended

/-! ## Wording -/

/-- Floats in messages keep a zero after the point, and an exponent from 10^16 on or below 10^-5. -/
def floatStyle : Decimal.Style :=
  { leastPositional := -5, greatestPositional := 15, plus := "+", tie := .toEven, nan := "null", infinity := "null" }

/-- A word between grave accents. -/
def ticked (s : String) : String := "`" ++ s ++ "`"

def Found.describe : Found → String
  | .null => "null"
  | .boolean b => "boolean " ++ ticked (if b then "true" else "false")
  | .integer n => "integer " ++ ticked (toString n)
  | .float x => "floating point " ++ ticked (floatStyle.render x.toBits)
  | .string s => "string " ++ Text.quoted s
  | .sequence => "sequence"
  | .map => "map"

/-- A list of alternatives in words. -/
def oneOf : List String → String
  | [] => "there are no variants"
  | [a] => "expected " ++ ticked a
  | [a, b] => "expected " ++ ticked a ++ " or " ++ ticked b
  | many => "expected one of " ++ String.intercalate ", " (many.map ticked)

def Mismatch.message : Mismatch → String
  | .missingField name => "missing field " ++ ticked name
  | .duplicateField name => "duplicate field " ++ ticked name
  | .wrongType found expected => "invalid type: " ++ found.describe ++ ", expected " ++ expected
  | .wrongValue found expected => "invalid value: " ++ found.describe ++ ", expected " ++ expected
  | .wrongLength length expected => "invalid length " ++ toString length ++ ", expected " ++ expected
  | .unknownVariant name known => "unknown variant " ++ ticked name ++ ", " ++ oneOf known

end Json
end VideoTransport
