import VideoTransport.Text.Invisible
/-!
# Quoted — text between double quotes

Diagnostics show a string between double quotes.  A quote, a backslash and the usual controls get a backslash and a
letter, and every other invisible character is named by its code point in braces.
-/
namespace VideoTransport
namespace Text

/-- How one character is shown between double quotes. -/
def quotedChar (c : Char) : List Char :=
  if c = '\x00' then ['\\', '0']
  else if c = '\t' then ['\\', 't']
  else if c = '\n' then ['\\', 'n']
  else if c = '\r' then ['\\', 'r']
  else if c = '"' then ['\\', '"']
  else if c = '\\' then ['\\', '\\']
  else if isInvisible c then
    '\\' :: 'u' :: '\x7b' :: (Nat.toDigits 16 c.toNat ++ ['\x7d'])
  else [c]

/-- A string between double quotes. -/
def quoted (s : String) : String :=
  String.ofList ('"' :: (s.toList.flatMap quotedChar ++ ['"']))

end Text
end VideoTransport
