import VideoTransport.Json.Failure
import VideoTransport.Text.Hex
/-!
# Phrase — string literals

A string literal is kept as the pieces that stand between its quotes: characters, and code units written in
hexadecimal.  Pairing the code units into characters is left to whoever wants the text, because a literal that is
passed over need not have one.
-/
namespace VideoTransport
namespace Json

/-- One item between the quotes of a string literal. -/
inductive Piece where
  | char (c : Char)
  /-- A sixteen-bit code unit written in hexadecimal. -/
  | unit (u : Nat)
  deriving DecidableEq

/-- A string literal, up to its closing quote or to the place where it gives out. -/
structure Phrase where
  pieces : List Piece
  stop : Option Stop := none
  deriving DecidableEq

namespace Phrase

/-! ## Reading the literal -/

/-- The character that a backslash and a letter stand for. -/
def shortEscape? : Char → Option Char
  | '"' => some '"'
  | '\\' => some '\\'
  | '/' => some '/'
  | 'b' => some '\x08'
  | 'f' => some '\x0c'
  | 'n' => some '\n'
  | 'r' => some '\r'
  | 't' => some '\t'
  | _ => none

/-- Four hexadecimal digits; the text has ended too early when fewer than four octets are left. -/
def readUnit (cs : List Char) : Except Stop (Nat × List Char) :=
  let refused : Except Stop (Nat × List Char) :=
    .error (if (cs.take 4).foldl (fun n c => n + c.utf8Size) 0 < 4 then .ended else .malformed)
  match cs with
  | a :: b :: c :: d :: rest =>
    match Text.hexValue? a, Text.hexValue? b, Text.hexValue? c, Text.hexValue? d with
    | some a, some b, some c, some d => .ok (((a * 16 + b) * 16 + c) * 16 + d, rest)
    | _, _, _, _ => refused
  | _ => refused

def push (p : Piece) (r : Phrase × List Char) : Phrase × List Char :=
  (⟨p :: r.1.pieces, r.1.stop⟩, r.2)

/-- Read pieces up to the closing quote; each takes at least one character, so `fuel` beyond the length of the text
is never missed. -/
def readPieces : Nat → List Char → Phrase × List Char
  | 0, _ => (⟨[], some .ended⟩, [])
  | _, [] => (⟨[], some .ended⟩, [])
  | fuel + 1, c :: cs =>
    if c = '"' then (⟨[], none⟩, cs)
    else if c = '\\' then
      match cs with
      | [] => (⟨[], some .ended⟩, [])
      | e :: cs =>
        if e = 'u' then
          match readUnit cs with
          | .ok (u, cs) => push (.unit u) (readPieces fuel cs)
          | .error stop => (⟨[], some stop⟩, [])
        else
          match shortEscape? e with
          | some c => push (.char c) (readPieces fuel cs)
          | none => (⟨[], some .malformed⟩, [])
    else if c.toNat < 32 then (⟨[], some .malformed⟩, [])
    else push (.char c) (readPieces fuel cs)

/-- Read a literal whose opening quote has been taken. -/
def read (cs : List Char) : Phrase × List Char := readPieces (cs.length + 1) cs

/-! ## The text -/

def isLeading (u : Nat) : Bool := 0xD800 ≤ u && u ≤ 0xDBFF
def isTrailing (u : Nat) : Bool := 0xDC00 ≤ u && u ≤ 0xDFFF

/-- The text of a run of pieces that ends in `stop`.  Code units outside the surrogate ranges are characters; a
leading surrogate needs a trailing one right after it. -/
def join (stop : Option Stop) : List Piece → Except Stop (List Char)
  | [] => match stop with
    | none => .ok []
    | some s => .error s
  | .char c :: rest => (c :: ·) <$> join stop rest
  | .unit u :: rest =>
    if isTrailing u then .error .malformed
    else if isLeading u then
      match rest with
      | .unit v :: rest =>
        if isTrailing v then
          (Char.ofNat ((u - 0xD800) * 1024 + (v - 0xDC00) + 0x10000) :: ·) <$> join stop rest
        else .error .malformed
      | .char _ :: _ => .error .malformed
      | [] => .error (stop.getD .malformed)
    else (Char.ofNat u :: ·) <$> join stop rest

/-- The text that a literal stands for. -/
def text (p : Phrase) : Except Stop String := String.ofList <$> join p.stop p.pieces

/-! ## Writing -/

/-- How one character is written between quotes: only quotes, backslashes and controls are escaped. -/
def writeChar (c : Char) : List Char :=
  if c = '"' then ['\\', '"']
  else if c = '\\' then ['\\', '\\']
  else if c = '\x08' then ['\\', 'b']
  else if c = '\x0c' then ['\\', 'f']
  else if c = '\n' then ['\\', 'n']
  else if c = '\r' then ['\\', 'r']
  else if c = '\t' then ['\\', 't']
  else if c.toNat < 32 then
    ['\\', 'u', '0', '0', Text.hexDigit (c.toNat / 16), Text.hexDigit (c.toNat % 16)]
  else [c]

/-- A string as a literal with its quotes. -/
def write (s : String) : List Char := '"' :: (s.toList.flatMap writeChar ++ ['"'])

end Phrase
end Json
end VideoTransport
