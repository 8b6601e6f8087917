import VideoTransport.Loopback.Chance
/-!
# Options — how a loopback run is asked for

Options have long names behind two dashes, and some have a letter behind one.  A value stands in the same word behind
an equals sign, or right behind the letter, or in the next word, which then must not look like an option.  Every
option may be given once.  Words are read from left to right, and the first thing wrong ends the reading, as does a
wish for help.
-/
namespace VideoTransport
namespace Loopback

structure Options where
  frames : UInt32 := 300
  fps : UInt32 := 30
  frameSize : Nat := 6000
  /-- Every so many frames there is a key frame. -/
  keyInterval : UInt32 := 60
  loss : Chance := Chance.ofBits (0.01 : Float).toBits
  reorder : Chance := Chance.ofBits (0.02 : Float).toBits
  mtu : Nat := 1200
  xorKey : Option UInt8 := none
  udp : Bool := false
  realtime : Bool := false
  deriving DecidableEq, Repr

/-- Why words do not amount to options. -/
inductive Refusal where
  | help
  | unexpected (word : String)
  | missingValue (name : String)
  | badValue (name value : String)
  | repeated (name : String)
  deriving DecidableEq, Repr

/-! ## Values -/

/-- Digits, at least one of them, as a number. -/
def readDigits (cs : List Char) : Option Nat :=
  if cs.isEmpty || !cs.all Char.isDigit then none else some (Decimal.naturalOf cs)

/-- A whole number that may have a sign. -/
def readInteger (text : String) : Option Int :=
  match text.toList with
  | '-' :: cs => (readDigits cs).map fun n => -(n : Int)
  | '+' :: cs => (readDigits cs).map Int.ofNat
  | cs => (readDigits cs).map Int.ofNat

/-- A whole number from 0 to `limit`; a negative zero will do. -/
def readUpTo (limit : Nat) (text : String) : Option Nat :=
  match readInteger text with
  | none => none
  | some n => if 0 ≤ n ∧ n ≤ limit then some n.toNat else none

/-- A size, which may have a plus but no minus. -/
def readSize (text : String) : Option Nat :=
  let digits := match text.toList with
    | '+' :: cs => cs
    | cs => cs
  match readDigits digits with
  | none => none
  | some n => if n < UInt64.size then some n else none

def readWord32 (text : String) : Option UInt32 := (readUpTo (UInt32.size - 1) text).map UInt32.ofNat

/-! ## The options -/

/-- What an option does when it is met. -/
inductive Effect where
  /-- Take a value, which may turn out to be unfit. -/
  | value (store : String → Options → Option Options)
  | flag (set : Options → Options)
  | help

/-- One option: its names, what help says about it, and what it does. -/
structure Choice where
  name : String
  letter : Option Char := none
  /-- What help calls the value. -/
  placeholder : String := ""
  about : String := ""
  /-- The default value, as help shows it. -/
  default : String := ""
  effect : Effect

/-- All options, in the order in which help lists them. -/
def choices : List Choice :=
  [{ name := "frames", letter := some 'f', placeholder := "FRAMES", about := "Number of access units to send",
     default := "300", effect := .value fun v o => (readWord32 v).map fun frames => { o with frames } },
   { name := "fps", placeholder := "FPS", about := "Frame rate used for RTP timestamps and pacing", default := "30",
     effect := .value fun v o => (readWord32 v).map fun fps => { o with fps } },
   { name := "frame-size", placeholder := "FRAME_SIZE",
     about := "Annex-B size of each synthetic access unit in bytes", default := "6000",
     effect := .value fun v o => (readSize v).map fun frameSize => { o with frameSize } },
   { name := "key-interval", placeholder := "KEY_INTERVAL", about := "Send an IDR every N frames", default := "60",
     effect := .value fun v o => (readWord32 v).map fun keyInterval => { o with keyInterval } },
   { name := "loss", placeholder := "LOSS", about := "Probability of dropping a packet (0.0 - 1.0)", default := "0.01",
     effect := .value fun v o => (Chance.ofText? v).map fun loss => { o with loss } },
   { name := "reorder", placeholder := "REORDER",
     about := "Probability of swapping a packet with the next one (0.0 - 1.0)", default := "0.02",
     effect := .value fun v o => (Chance.ofText? v).map fun reorder => { o with reorder } },
   { name := "mtu", placeholder := "MTU", default := "1200",
     effect := .value fun v o => (readSize v).map fun mtu => { o with mtu } },
   { name := "xor-key", placeholder := "XOR_KEY", about := "XOR payloads with this key",
     effect := .value fun v o => (readUpTo 255 v).map fun key => { o with xorKey := some (UInt8.ofNat key) } },
   { name := "udp", about := "Carry packets over a UDP socket pair on 127.0.0.1",
     effect := .flag fun o => { o with udp := true } },
   { name := "realtime", about := "Sleep between frames instead of sending as fast as possible",
     effect := .flag fun o => { o with realtime := true } },
   { name := "help", letter := some 'h', about := "Print help", effect := .help }]

def choiceNamed? (name : String) : Option Choice := choices.find? (·.name = name)

def choiceLettered? (letter : Char) : Option Choice := choices.find? (·.letter = some letter)

/-! ## Reading -/

/-- Options so far, and the names of those that have been met. -/
structure Progress where
  options : Options := {}
  seen : List String := []

/-- Meet an option, with its value if it takes one. -/
def Progress.meet (p : Progress) (c : Choice) (value : String) : Except Refusal Progress :=
  match c.effect with
  | .help => .error .help
  | .flag set =>
    if p.seen.contains c.name then .error (.repeated c.name)
    else .ok ⟨set p.options, c.name :: p.seen⟩
  | .value store =>
    if p.seen.contains c.name then .error (.repeated c.name)
    else match store value p.options with
      | none => .error (.badValue c.name value)
      | some options => .ok ⟨options, c.name :: p.seen⟩

def Choice.takesValue (c : Choice) : Bool :=
  match c.effect with
  | .value _ => true
  | _ => false

/-- What a word says by itself. -/
inductive Word where
  /-- The option's value is in the word. -/
  | withValue (c : Choice) (value : String)
  /-- The option takes none, and letters may follow. -/
  | bare (c : Choice) (letters : List Char)
  /-- The value is in the next word. -/
  | wanting (c : Choice)
  | foreign

/-- Read the letters behind one dash; the first that takes a value ends them. -/
def readLetters : List Char → Word
  | [] => .foreign
  | letter :: rest =>
    match choiceLettered? letter with
    | none => .foreign
    | some c =>
      if c.takesValue then
        match rest with
        | [] => .wanting c
        | '=' :: value => .withValue c (String.ofList value)
        | value => .withValue c (String.ofList value)
      else .bare c rest

/-- Read the name behind two dashes, and the value if there is one. -/
def readName (cs : List Char) : Word :=
  let (name, value) := cs.span (· ≠ '=')
  match choiceNamed? (String.ofList name) with
  | none => .foreign
  | some c =>
    match value with
    | [] => if c.takesValue then .wanting c else .bare c []
    | _ :: value => if c.takesValue then .withValue c (String.ofList value) else .foreign

def readWord (word : String) : Word :=
  match word.toList with
  | '-' :: '-' :: cs => readName cs
  | '-' :: cs => readLetters cs
  | _ => .foreign

/-- Whether a word can be the value of the option before it. -/
def isValue (word : String) : Bool :=
  match word.toList with
  | '-' :: _ :: _ => false
  | _ => true

/-- Meet options without values, the first of them known and the others by their letters. -/
def Progress.meetLetters (p : Progress) (word : String) : List Char → Except Refusal Progress
  | [] => .ok p
  | letter :: rest =>
    match choiceLettered? letter with
    | none => .error (.unexpected word)
    | some c => do
      let p ← p.meet c ""
      p.meetLetters word rest

/-- Read words from left to right; a bare double dash may only come last. -/
def Progress.read (p : Progress) : List String → Except Refusal Options
  | [] => .ok p.options
  | word :: rest =>
    if word = "--" then
      match rest with
      | [] => .ok p.options
      | next :: _ => .error (.unexpected next)
    else match readWord word with
    | .foreign => .error (.unexpected word)
    | .withValue c value => do
      let p ← p.meet c value
      p.read rest
    | .bare c letters => do
      let p ← p.meet c ""
      let p ← p.meetLetters word letters
      p.read rest
    | .wanting c =>
      match rest with
      | [] => .error (.missingValue c.name)
      | value :: rest =>
        if isValue value then do
          let p ← p.meet c value
          p.read rest
        else .error (.missingValue c.name)

def Options.read (words : List String) : Except Refusal Options := Progress.read {} words

/-! ## Help -/

/-- The width of the column with the names. -/
def nameColumn : Nat := 37

def Choice.helpLine (c : Choice) : String :=
  let letter := match c.letter with
    | some l => "  -" ++ l.toString ++ ", "
    | none => "      "
  let placeholder := if c.placeholder = "" then "" else " <" ++ c.placeholder ++ ">"
  let names := letter ++ "--" ++ c.name ++ placeholder
  let default := if c.default = "" then "" else "[default: " ++ c.default ++ "]"
  let gap := if c.about = "" || c.default = "" then "" else " "
  names ++ String.ofList (List.replicate (nameColumn - names.length) ' ') ++ c.about ++ gap ++ default

def commandName : String := "rtp-video-loopback"

def usageLine : String := "Usage: " ++ commandName ++ " [OPTIONS]"

def helpLines : List String :=
  ["Send synthetic H.264 through an impaired loopback and report delivery", "", usageLine, "", "Options:"] ++
    choices.map Choice.helpLine

/-- The option with its placeholder, as refusals name it. -/
def shownName (name : String) : String :=
  match choiceNamed? name with
  | none => "--" ++ name
  | some c => "--" ++ name ++ (if c.placeholder = "" then "" else " <" ++ c.placeholder ++ ">")

def Refusal.message : Refusal → String
  | .help => "help was asked for"
  | .unexpected word => "unexpected argument '" ++ word ++ "' found"
  | .missingValue name => "a value is required for '" ++ shownName name ++ "' but none was supplied"
  | .badValue name value => "invalid value '" ++ value ++ "' for '" ++ shownName name ++ "'"
  | .repeated name => "the argument '" ++ shownName name ++ "' cannot be used multiple times"

/-- The lines that a refusal puts before the user. -/
def Refusal.lines (r : Refusal) : List String :=
  ["error: " ++ r.message, "", usageLine, "", "For more information, try '--help'."]

end Loopback
end VideoTransport
