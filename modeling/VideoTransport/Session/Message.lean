import VideoTransport.Json.Record
/-!
# Message — what the peers of a session say to each other

A message is an envelope with a type and a payload.  Field names are written in camel case; reading also takes them
with a capital and the profile under a short name, and the type in any letter case.  The envelope is read in text
order and its payload taken in as a whole before it is examined.
-/
namespace VideoTransport
namespace Session

/-- A proposal for a session. -/
structure Offer where
  codec : String := ""
  profileLevelId : String := ""
  width : UInt32 := 0
  height : UInt32 := 0
  bitrate : UInt32 := 0
  /-- Both parameter sets in base64, or nothing. -/
  parameterSets : String := ""
  deriving DecidableEq, Repr

/-- The reply to an offer. -/
structure Answer where
  accepted : Bool := false
  codec : String := ""
  profileLevelId : String := ""
  parameterSets : String := ""
  deriving DecidableEq, Repr

inductive Message where
  | offer (o : Offer)
  | answer (a : Answer)
  /-- Pictures were lost, and a key frame is wanted. -/
  | keyFrameRequest
  deriving DecidableEq, Repr

/-! ## Writing -/

def Offer.write (o : Offer) : List Char :=
  Json.writeObject
    [Json.writeMember "codec" (Json.Phrase.write o.codec),
     Json.writeMember "profileLevelId" (Json.Phrase.write o.profileLevelId),
     Json.writeMember "width" (Json.writeNat o.width.toNat),
     Json.writeMember "height" (Json.writeNat o.height.toNat),
     Json.writeMember "bitrate" (Json.writeNat o.bitrate.toNat),
     Json.writeMember "spropParameterSets" (Json.Phrase.write o.parameterSets)]

def Answer.write (a : Answer) : List Char :=
  Json.writeObject
    [Json.writeMember "accepted" (Json.writeBool a.accepted),
     Json.writeMember "codec" (Json.Phrase.write a.codec),
     Json.writeMember "profileLevelId" (Json.Phrase.write a.profileLevelId),
     Json.writeMember "spropParameterSets" (Json.Phrase.write a.parameterSets)]

namespace Message

def typeName : Message → String
  | .offer _ => "offer"
  | .answer _ => "answer"
  | .keyFrameRequest => "pli"

def writePayload : Message → List Char
  | .offer o => o.write
  | .answer a => a.write
  | .keyFrameRequest => Json.writeObject []

def write (m : Message) : List Char :=
  Json.writeObject
    [Json.writeMember "type" (Json.Phrase.write m.typeName), Json.writeMember "payload" m.writePayload]

/-- The message as JSON text. -/
def toJson (m : Message) : String := String.ofList m.write

end Message

/-! ## Reading -/

def Offer.schema : Json.Schema Offer where
  title := "struct SessionOffer"
  initial := {}
  fields :=
    [{ name := "codec", aliases := ["Codec"], required := true,
       store := fun t o => do return { o with codec := ← t.text } },
     { name := "profileLevelId", aliases := ["ProfileLevelId", "profile", "Profile"],
       store := fun t o => do return { o with profileLevelId := ← t.text } },
     { name := "width", aliases := ["Width"], required := true,
       store := fun t o => do return { o with width := UInt32.ofNat (← t.natural 32 "u32") } },
     { name := "height", aliases := ["Height"], required := true,
       store := fun t o => do return { o with height := UInt32.ofNat (← t.natural 32 "u32") } },
     { name := "bitrate", aliases := ["Bitrate"], required := true,
       store := fun t o => do return { o with bitrate := UInt32.ofNat (← t.natural 32 "u32") } },
     { name := "spropParameterSets", aliases := ["SpropParameterSets"],
       store := fun t o => do return { o with parameterSets := ← t.text } }]

def Answer.schema : Json.Schema Answer where
  title := "struct SessionAnswer"
  initial := {}
  fields :=
    [{ name := "accepted", aliases := ["Accepted"], required := true,
       store := fun t a => do return { a with accepted := ← t.boolean } },
     { name := "codec", aliases := ["Codec"], store := fun t a => do return { a with codec := ← t.text } },
     { name := "profileLevelId", aliases := ["ProfileLevelId", "profile", "Profile"],
       store := fun t a => do return { a with profileLevelId := ← t.text } },
     { name := "spropParameterSets", aliases := ["SpropParameterSets"],
       store := fun t a => do return { a with parameterSets := ← t.text } }]

/-- A message whose payload has not been examined. -/
structure Envelope where
  kind : String := ""
  payload : Json.Tree := .null

/-- How deeply arrays and objects may be nested, the envelope included. -/
def nestingLimit : Nat := 128

def Envelope.schema : Json.Schema Envelope where
  title := "struct IncomingEnvelope"
  initial := {}
  fields :=
    [{ name := "type", aliases := ["Type"], required := true,
       store := fun t e => do return { e with kind := ← t.text } },
     { name := "payload", aliases := ["Payload"],
       store := fun t e => do
        return { e with payload := ← Json.liftStop (t.settle (nestingLimit - 1)) } }]

/-- A character in lower case, as far as ASCII goes. -/
def asciiLower (s : String) : String := s.map Char.toLower

/-- Examine the payload of an envelope as its type says. -/
def Envelope.examine (e : Envelope) : Except Json.Failure Message :=
  let kind := asciiLower e.kind
  if kind = "offer" then Message.offer <$> Offer.schema.read .settled e.payload
  else if kind = "answer" then Message.answer <$> Answer.schema.read .settled e.payload
  else if kind = "pli" then .ok .keyFrameRequest
  else .error (.mismatch (.unknownVariant e.kind ["offer", "answer", "pli"]))

/-- Read a message from JSON text. -/
def Message.parse (raw : String) : Except Json.Failure Message := do
  let e ← Envelope.schema.readDocument (Json.Document.read raw.toList)
  e.examine

end Session
end VideoTransport
