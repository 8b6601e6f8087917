import Mathlib.Data.List.Forall2
import VideoTransport.Proofs.Messages
/-!
# Rendering — messages are written as JSON, and read back

Which texts are JSON, and for what value, is said here by a grammar that knows neither the writer nor the reader:
`Glyph` for the characters of a string literal, `Renders` for values.  What is written keeps to it, whatever characters
and numbers there are (`glyph_writeChar`, `renders_writeNat`, `renders_writeObject`), and so a message is the JSON text
of its envelope and reads back as itself (`Message.parse_toJson`).
-/
namespace VideoTransport
namespace Json

/-! ## The grammar -/

/-- A value, as far as messages need one. -/
inductive Datum where
  | bool (b : Bool)
  | natural (n : Nat)
  | string (s : String)
  | object (members : List (String × Datum))

/-- What stands behind a backslash, and the character that the two stand for. -/
def escapes : List (Char × Char) :=
  [('"', '"'), ('\\', '\\'), ('/', '/'), ('b', '\x08'), ('f', '\x0c'), ('n', '\n'), ('r', '\r'), ('t', '\t')]

/-- The texts that stand for a character between the quotes of a string literal. -/
inductive Glyph (c : Char) : List Char → Prop
  | plain (hcontrol : 32 ≤ c.toNat) (hquote : c ≠ '"') (hslash : c ≠ '\\') : Glyph c [c]
  | escape {letter : Char} (h : (letter, c) ∈ escapes) : Glyph c ['\\', letter]
  /-- The number of the character in four hexadecimal digits. -/
  | unit {digits : List Char} {n₃ n₂ n₁ n₀ : Nat}
      (hdigits : digits.map Text.hexValue? = [some n₃, some n₂, some n₁, some n₀])
      (h : n₃ * 4096 + n₂ * 256 + n₁ * 16 + n₀ = c.toNat) : Glyph c ('\\' :: 'u' :: digits)

mutual

/-- The JSON texts of a value, as far as there are no blanks in them. -/
inductive Renders : Datum → List Char → Prop
  | true : Renders (.bool true) ['t', 'r', 'u', 'e']
  | false : Renders (.bool false) ['f', 'a', 'l', 's', 'e']
  /-- A leading zero stands alone. -/
  | natural {digits : List Char} (hne : digits ≠ []) (hdigits : ∀ c ∈ digits, c.isDigit = true)
      (hzero : digits.head? = some '0' → digits = ['0']) : Renders (.natural (Nat.ofDigitChars 10 digits 0)) digits
  | string {s : String} {glyphs : List (List Char)} (h : List.Forall₂ Glyph s.toList glyphs) :
      Renders (.string s) ('"' :: (glyphs.flatten ++ ['"']))
  | object {members : List (String × Datum)} {texts : List (List Char)} (h : List.Forall₂ RendersMember members texts) :
      Renders (.object members) ('\x7b' :: (List.intercalate [','] texts ++ ['\x7d']))

/-- The texts of a member of an object. -/
inductive RendersMember : String × Datum → List Char → Prop
  | pair {name : String} {value : Datum} {key text : List Char} (hkey : Renders (.string name) key)
      (hvalue : Renders value text) : RendersMember (name, value) (key ++ ':' :: text)

end

/-! ## Writing keeps to it -/

theorem glyph_writeChar (c : Char) : Glyph c (Phrase.writeChar c) := by
  unfold Phrase.writeChar
  by_cases hshort : c ∈ ['"', '\\', '\x08', '\x0c', '\n', '\r', '\t']
  · simp only [List.mem_cons, List.not_mem_nil, or_false] at hshort
    rcases hshort with rfl | rfl | rfl | rfl | rfl | rfl | rfl <;> exact .escape (by decide)
  · simp only [List.mem_cons, List.not_mem_nil, or_false, not_or] at hshort
    obtain ⟨hquote, hslash, hb, hf, hn, hr, ht⟩ := hshort
    rw [if_neg hquote, if_neg hslash, if_neg hb, if_neg hf, if_neg hn, if_neg hr, if_neg ht]
    split
    · rename_i hcontrol
      have hzero : Text.hexValue? '0' = some 0 := by decide
      have hhigh : Text.hexValue? (Text.hexDigit (c.toNat / 16)) = some (c.toNat / 16) := Text.hexValue_digit (by omega)
      have hlow : Text.hexValue? (Text.hexDigit (c.toNat % 16)) = some (c.toNat % 16) := Text.hexValue_digit (by omega)
      refine @Glyph.unit c _ 0 0 (c.toNat / 16) (c.toNat % 16) ?_ (by omega)
      simp only [List.map_cons, List.map_nil, hzero, hhigh, hlow]
    · rename_i hplain
      exact .plain (by omega) hquote hslash

theorem renders_string (s : String) : Renders (.string s) (Phrase.write s) := by
  have hglyphs : List.Forall₂ Glyph s.toList (s.toList.map Phrase.writeChar) :=
    List.forall₂_map_right_iff.2 (List.forall₂_same.2 fun c _ => glyph_writeChar c)
  exact .string hglyphs

theorem renders_writeBool (b : Bool) : Renders (.bool b) (writeBool b) := by
  cases b with
  | true => exact .true
  | false => exact .false

theorem renders_writeNat (n : Nat) : Renders (.natural n) (writeNat n) := by
  have hdigits := Renders.natural (Nat.toDigits_ne_nil (n := n))
    (fun c hc => Nat.isDigit_of_mem_toDigits (by decide) (by decide) hc) Literal.toDigits_of_head
  rwa [Nat.ofDigitChars_ten_toDigits] at hdigits

/-- What is written for members that are written as JSON is JSON. -/
theorem renders_writeObject (members : List (String × Datum × List Char))
    (h : ∀ m ∈ members, Renders m.2.1 m.2.2) :
    Renders (.object (members.map fun m => (m.1, m.2.1))) (writeObject (members.map fun m => writeMember m.1 m.2.2)) := by
  refine .object (List.forall₂_map_left_iff.2 (List.forall₂_map_right_iff.2 (List.forall₂_same.2 fun m hm => ?_)))
  exact .pair (renders_string m.1) (h m hm)

end Json

namespace Session

open Json (Datum Renders)

/-! ## Messages -/

def Offer.datum (o : Offer) : Datum :=
  .object
    [("codec", .string o.codec), ("profileLevelId", .string o.profileLevelId), ("width", .natural o.width.toNat),
      ("height", .natural o.height.toNat), ("bitrate", .natural o.bitrate.toNat),
      ("spropParameterSets", .string o.parameterSets)]

def Answer.datum (a : Answer) : Datum :=
  .object
    [("accepted", .bool a.accepted), ("codec", .string a.codec), ("profileLevelId", .string a.profileLevelId),
      ("spropParameterSets", .string a.parameterSets)]

/-- The value in the envelope of a message. -/
def Message.payload : Message → Datum
  | .offer o => o.datum
  | .answer a => a.datum
  | .keyFrameRequest => .object []

def Message.datum (m : Message) : Datum := .object [("type", .string m.typeName), ("payload", m.payload)]

theorem Message.renders_writePayload (m : Message) : Renders m.payload m.writePayload := by
  cases m with
  | offer o =>
    refine Json.renders_writeObject
      [("codec", .string o.codec, Json.Phrase.write o.codec),
        ("profileLevelId", .string o.profileLevelId, Json.Phrase.write o.profileLevelId),
        ("width", .natural o.width.toNat, Json.writeNat o.width.toNat),
        ("height", .natural o.height.toNat, Json.writeNat o.height.toNat),
        ("bitrate", .natural o.bitrate.toNat, Json.writeNat o.bitrate.toNat),
        ("spropParameterSets", .string o.parameterSets, Json.Phrase.write o.parameterSets)] ?_
    simp only [List.forall_mem_cons, Json.renders_string, Json.renders_writeNat, true_and]
    exact List.forall_mem_nil _
  | answer a =>
    refine Json.renders_writeObject
      [("accepted", .bool a.accepted, Json.writeBool a.accepted),
        ("codec", .string a.codec, Json.Phrase.write a.codec),
        ("profileLevelId", .string a.profileLevelId, Json.Phrase.write a.profileLevelId),
        ("spropParameterSets", .string a.parameterSets, Json.Phrase.write a.parameterSets)] ?_
    simp only [List.forall_mem_cons, Json.renders_string, Json.renders_writeBool, true_and]
    exact List.forall_mem_nil _
  | keyFrameRequest => exact Json.renders_writeObject [] (List.forall_mem_nil _)

/-- **A message is written as the JSON text of its envelope and reads back as itself**, whatever characters its texts
hold. -/
theorem Message.parse_toJson (m : Message) : Renders m.datum m.toJson.toList ∧ Message.parse m.toJson = .ok m := by
  refine ⟨?_, m.parse_ofList_write⟩
  rw [toJson, String.toList_ofList]
  refine Json.renders_writeObject
    [("type", .string m.typeName, Json.Phrase.write m.typeName), ("payload", m.payload, m.writePayload)] ?_
  simp only [List.forall_mem_cons, Json.renders_string, m.renders_writePayload, true_and]
  exact List.forall_mem_nil _

end Session
end VideoTransport
