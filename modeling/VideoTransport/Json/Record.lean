import VideoTransport.Json.Tree
/-!
# Record — reading typed values and records out of a tree

A record may be written as an object, in any order and with foreign members, or as the array of its fields in their
declared order.  A tree is walked in text order and the first thing wrong with it is reported; a required field that
never came is reported after the closing brace.
-/
namespace VideoTransport
namespace Json

/-- Where a tree came from decides how items beyond the last field of a record are refused. -/
inductive Origin where
  /-- Read straight from a text, which must go on with the closing bracket. -/
  | text
  /-- Taken in as a whole before it is examined. -/
  | settled
  deriving DecidableEq

def liftStop {α : Type} : Except Stop α → Except Failure α
  | .ok a => .ok a
  | .error stop => .error stop.failure

/-- What a tree is called when it is not what was expected. -/
def Tree.found : Tree → Except Stop Found
  | .null => .ok .null
  | .bool b => .ok (.boolean b)
  | .number l => Number.found <$> l.value
  | .cutNumber stop => .error stop
  | .string p => .string <$> p.text
  | .array _ _ => .ok .sequence
  | .object _ _ => .ok .map
  | .broken stop => .error stop

/-- Refuse a tree of the wrong type. -/
def Tree.refuse {α : Type} (expected : String) (t : Tree) : Except Failure α :=
  match t.found with
  | .ok found => .error (.mismatch (.wrongType found expected))
  | .error stop => .error stop.failure

/-! ## Single values -/

/-- A natural number below `2 ^ bits`; `expected` is what the messages call it. -/
def Tree.natural (bits : Nat) (expected : String) (t : Tree) : Except Failure Nat :=
  match t with
  | .number l => do
    match ← liftStop l.value with
    | .integer n =>
      if 0 ≤ n ∧ n < Nat.pow 2 bits then .ok n.toNat
      else .error (.mismatch (.wrongValue (.integer n) expected))
    | .float x => .error (.mismatch (.wrongType (.float x) expected))
  | t => t.refuse expected

def Tree.text (t : Tree) : Except Failure String :=
  match t with
  | .string p => liftStop p.text
  | t => t.refuse "a string"

def Tree.boolean (t : Tree) : Except Failure Bool :=
  match t with
  | .bool b => .ok b
  | t => t.refuse "a boolean"

/-- A value that may be `null`. -/
def Tree.optional {α : Type} (read : Tree → Except Failure α) (t : Tree) : Except Failure (Option α) :=
  match t with
  | .null => .ok none
  | t => some <$> read t

/-! ## Records -/

/-- One field of a record that is read into a `σ`. -/
structure Field (σ : Type) where
  /-- The name that messages use. -/
  name : String
  /-- Further names under which the field is accepted. -/
  aliases : List String := []
  required : Bool := false
  /-- Read the field's value into the record. -/
  store : Tree → σ → Except Failure σ

/-- How a record is read: its title in messages, its fields in declared order and its value before any is read. -/
structure Schema (σ : Type) where
  title : String
  fields : List (Field σ)
  initial : σ

namespace Field

variable {σ : Type}

def answersTo (f : Field σ) (key : String) : Bool := f.name = key || f.aliases.contains key

end Field

namespace Schema

variable {σ : Type}

/-- What a message expects where an array is too short for the record. -/
def lengthPhrase (s : Schema σ) : String :=
  s.title ++ " with " ++ toString s.fields.length ++ " elements"

/-- Walk the members of an object; `seen` holds the names of the fields already met. -/
def readMembers (s : Schema σ) : List (Phrase × Tree) → List String → σ → Except Failure (List String × σ)
  | [], seen, r => .ok (seen, r)
  | (p, t) :: rest, seen, r => do
    let key ← liftStop p.text
    match s.fields.find? (·.answersTo key) with
    | none => do
      liftStop t.skip
      readMembers s rest seen r
    | some f =>
      if seen.contains f.name then .error (.mismatch (.duplicateField f.name))
      else do
        let r ← f.store t r
        readMembers s rest (f.name :: seen) r

/-- The first required field, in declared order, that was not met. -/
def missing? (s : Schema σ) (seen : List String) : Option String :=
  (s.fields.find? fun f => f.required && !seen.contains f.name).map (·.name)

/-- How items beyond the last field are refused; `total` counts all items. -/
def surplus (origin : Origin) (total : Nat) (items : List Tree) (stop : Option Stop) : Except Failure Unit :=
  match origin, items, stop with
  | _, [], none => .ok ()
  | _, [], some stop => .error stop.failure
  | .text, _ :: _, _ => .error .malformed
  | .settled, _ :: _, _ => .error (.mismatch (.wrongLength total "fewer elements in array"))

/-- Walk the items of an array along the fields; `index` counts the fields passed, and a required field without an
item is reported by its index. -/
def readItems (s : Schema σ) (origin : Origin) (total : Nat) (stop : Option Stop) :
    Nat → List (Field σ) → List Tree → σ → Except Failure σ
  | _, [], items, r => do
    surplus origin total items stop
    return r
  | index, f :: fields, t :: items, r => do
    let r ← f.store t r
    readItems s origin total stop (index + 1) fields items r
  | index, f :: fields, [], r =>
    match stop with
    | some stop => .error stop.failure
    | none =>
      if f.required then .error (.mismatch (.wrongLength index s.lengthPhrase))
      else readItems s origin total none (index + 1) fields [] r

/-- Read a record. -/
def read (s : Schema σ) (origin : Origin) (t : Tree) : Except Failure σ :=
  match t with
  | .object members stop => do
    let (seen, r) ← s.readMembers members [] s.initial
    match stop with
    | some stop => .error stop.failure
    | none =>
      match s.missing? seen with
      | some name => .error (.mismatch (.missingField name))
      | none => .ok r
  | .array items stop => s.readItems origin items.length stop 0 s.fields items s.initial
  | t => t.refuse s.title

/-- Read a record from a whole text; nothing but blanks may follow it. -/
def readDocument (s : Schema σ) (d : Document) : Except Failure σ := do
  let r ← s.read .text d.root
  if d.surplus then .error .malformed else .ok r

end Schema

/-! ## Writing -/

/-- A member of an object, from its name and its value as text. -/
def writeMember (name : String) (value : List Char) : List Char := Phrase.write name ++ ':' :: value

/-- An object, from its members as texts. -/
def writeObject (members : List (List Char)) : List Char :=
  '\x7b' :: (List.intercalate [','] members ++ ['\x7d'])

def writeNat (n : Nat) : List Char := Nat.toDigits 10 n

def writeBool (b : Bool) : List Char := if b then ['t', 'r', 'u', 'e'] else ['f', 'a', 'l', 's', 'e']

end Json
end VideoTransport
