import VideoTransport.Json.Number
import VideoTransport.Json.Phrase
/-!
# Tree — the nesting of a JSON text, as far as it can be read

Reading never fails outright: where the grammar gives out, the tree ends in a break.  Whoever walks a tree in text
order therefore meets a wrong shape before a later break, and a break before a later wrong shape.  Literals are kept
unread, since a value that is passed over may hold numbers out of range and unpaired surrogates.
-/
namespace VideoTransport
namespace Json

/-- A JSON value as it is written. -/
inductive Tree where
  | null
  | bool (b : Bool)
  | number (l : Literal)
  /-- A number that breaks off where a digit must stand. -/
  | cutNumber (stop : Stop)
  | string (p : Phrase)
  /-- The items, and where the list gives out before its closing bracket. -/
  | array (items : List Tree) (stop : Option Stop)
  /-- The members in text order, and where the list gives out before its closing brace. -/
  | object (members : List (Phrase × Tree)) (stop : Option Stop)
  | broken (stop : Stop)

/-- A whole text: its value, and whether anything but blanks follows it. -/
structure Document where
  root : Tree
  surplus : Bool

/-! ## Reading -/

def isBlank (c : Char) : Bool := c = ' ' || c = '\n' || c = '\t' || c = '\r'

def skipBlanks (cs : List Char) : List Char := cs.dropWhile isBlank

/-- Read the rest of a word, letter by letter. -/
def readWord (word : List Char) (meaning : Tree) (cs : List Char) : Tree × List Char :=
  match word, cs with
  | [], cs => (meaning, cs)
  | _ :: _, [] => (.broken .ended, [])
  | w :: word, c :: cs => if w = c then readWord word meaning cs else (.broken .malformed, [])

mutual

/-- Read one value; `fuel` bounds the number of values, items and members still to be met. -/
def readTree : Nat → List Char → Tree × List Char
  | 0, _ => (.broken .ended, [])
  | fuel + 1, cs =>
    match skipBlanks cs with
    | [] => (.broken .ended, [])
    | c :: cs =>
      if c = '"' then
        let (p, cs) := Phrase.read cs
        (.string p, cs)
      else if c = '[' then
        match skipBlanks cs with
        | ']' :: cs => (.array [] none, cs)
        | cs =>
          let (items, stop, cs) := readItems fuel cs
          (.array items stop, cs)
      else if c = '\x7b' then
        match skipBlanks cs with
        | '\x7d' :: cs => (.object [] none, cs)
        | cs =>
          let (members, stop, cs) := readMembers fuel cs
          (.object members stop, cs)
      else if c = 'n' then readWord ['u', 'l', 'l'] .null cs
      else if c = 't' then readWord ['r', 'u', 'e'] (.bool true) cs
      else if c = 'f' then readWord ['a', 'l', 's', 'e'] (.bool false) cs
      else if c = '-' || c.isDigit then
        match Literal.read (c :: cs) with
        | .ok (l, cs) => (.number l, cs)
        | .error stop => (.cutNumber stop, [])
      else (.broken .malformed, [])

/-- Read the items of an array, at least one, up to the closing bracket. -/
def readItems : Nat → List Char → List Tree × Option Stop × List Char
  | 0, _ => ([], some .ended, [])
  | fuel + 1, cs =>
    let (item, cs) := readTree fuel cs
    match skipBlanks cs with
    | [] => ([item], some .ended, [])
    | c :: cs =>
      if c = ',' then
        let (items, stop, cs) := readItems fuel cs
        (item :: items, stop, cs)
      else if c = ']' then ([item], none, cs)
      else ([item], some .malformed, [])

/-- Read the members of an object, at least one, up to the closing brace. -/
def readMembers : Nat → List Char → List (Phrase × Tree) × Option Stop × List Char
  | 0, _ => ([], some .ended, [])
  | fuel + 1, cs =>
    match skipBlanks cs with
    | [] => ([], some .ended, [])
    | q :: cs =>
      if q = '"' then
        let (key, cs) := Phrase.read cs
        match skipBlanks cs with
        | [] => ([(key, .broken .ended)], some .ended, [])
        | colon :: cs =>
          if colon = ':' then
            let (value, cs) := readTree fuel cs
            match skipBlanks cs with
            | [] => ([(key, value)], some .ended, [])
            | c :: cs =>
              if c = ',' then
                let (members, stop, cs) := readMembers fuel cs
                ((key, value) :: members, stop, cs)
              else if c = '\x7d' then ([(key, value)], none, cs)
              else ([(key, value)], some .malformed, [])
          else ([(key, .broken .malformed)], some .malformed, [])
      else ([], some .malformed, [])

end

/-- Read a whole text. -/
def Document.read (text : List Char) : Document :=
  let (root, rest) := readTree (2 * text.length + 2) text
  ⟨root, !(skipBlanks rest).isEmpty⟩

/-! ## Passing over a value -/

mutual

/-- Pass over a value nobody asked for: only the grammar counts, and a number may not break off at all. -/
def Tree.skip : Tree → Except Stop Unit
  | .null => .ok ()
  | .bool _ => .ok ()
  | .number _ => .ok ()
  | .cutNumber _ => .error .malformed
  | .string p => match p.stop with
    | none => .ok ()
    | some stop => .error stop
  | .array items stop => do
    skipItems items
    match stop with
    | none => .ok ()
    | some stop => .error stop
  | .object members stop => do
    skipMembers members
    match stop with
    | none => .ok ()
    | some stop => .error stop
  | .broken stop => .error stop

def skipItems : List Tree → Except Stop Unit
  | [] => .ok ()
  | t :: rest => do
    t.skip
    skipItems rest

def skipMembers : List (Phrase × Tree) → Except Stop Unit
  | [] => .ok ()
  | (key, t) :: rest => do
    match key.stop with
    | none => .ok ()
    | some stop => .error stop
    t.skip
    skipMembers rest

end

/-! ## Taking in a whole value -/

/-- The order of keys, by the numbers of their characters. -/
def precedes (key key' : String) : Bool := key.toList.lex key'.toList fun c d => c.toNat < d.toNat

/-- Put a member into a list sorted by key; a key that is there already gets the new value. -/
def insertMember (key : String) (p : Phrase) (t : Tree) :
    List (String × Phrase × Tree) → List (String × Phrase × Tree)
  | [] => [(key, p, t)]
  | (k, m) :: rest =>
    if precedes key k then (key, p, t) :: (k, m) :: rest
    else if key = k then (key, p, t) :: rest
    else (k, m) :: insertMember key p t rest

/-- Nested arrays and objects are refused when there are more than `depth - 1` levels of them. -/
def deepen (depth : Nat) : Except Stop Nat := if depth ≤ 1 then .error .malformed else .ok (depth - 1)

mutual

/-- Take in a whole value: every literal in it must have a value, members are sorted by key, and of several members
with one key the last one counts. -/
def Tree.settle (depth : Nat) : Tree → Except Stop Tree
  | .null => .ok .null
  | .bool b => .ok (.bool b)
  | .number l => do
    let _ ← l.value
    return .number l
  | .cutNumber stop => .error stop
  | .string p => do
    let _ ← p.text
    return .string p
  | .array items stop => do
    let depth ← deepen depth
    let items ← settleItems depth items
    match stop with
    | none => return .array items none
    | some stop => .error stop
  | .object members stop => do
    let depth ← deepen depth
    let members ← settleMembers depth members []
    match stop with
    | none => return .object (members.map Prod.snd) none
    | some stop => .error stop
  | .broken stop => .error stop

def settleItems (depth : Nat) : List Tree → Except Stop (List Tree)
  | [] => .ok []
  | t :: rest => do
    let t ← t.settle depth
    let rest ← settleItems depth rest
    return t :: rest

def settleMembers (depth : Nat) : List (Phrase × Tree) → List (String × Phrase × Tree) →
    Except Stop (List (String × Phrase × Tree))
  | [], sorted => .ok sorted
  | (p, t) :: rest, sorted => do
    let key ← p.text
    let t ← t.settle depth
    settleMembers depth rest (insertMember key p t sorted)

end

end Json
end VideoTransport
