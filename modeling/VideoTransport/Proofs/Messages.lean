import VideoTransport.Proofs.Spelling
import VideoTransport.Session.Message
/-!
# Messages — what the peers of a session say reads back

A message is written as an envelope with its type and its payload.  Reading takes the payload in, sorted by name, and
then finds every field by its name, so that every message reads back as itself (`Message.parse_ofList_write`).
-/
namespace VideoTransport
namespace Json

/-! ## Members with single values -/

namespace Member

def ofString (name s : String) : Member := ⟨name, Phrase.write s, .string (.spelled s)⟩

def ofNat (name : String) (n : Nat) : Member := ⟨name, writeNat n, .number (.spelled n)⟩

def ofBool (name : String) (b : Bool) : Member := ⟨name, writeBool b, .bool b⟩

/-- A member whose text spells its value, which is taken in as it is. -/
structure IsPlain (m : Member) : Prop where
  spells : Spells m.text m.value
  settles : ∀ depth, m.value.settle depth = .ok m.value

theorem isPlain_ofString (name s : String) : (ofString name s).IsPlain where
  spells := spells_string s
  settles depth := by
    rw [ofString, Tree.settle, Phrase.text_spelled]
    rfl

theorem isPlain_ofNat (name : String) {n : Nat} (h : n < UInt64.size) : (ofNat name n).IsPlain where
  spells := spells_writeNat n
  settles depth := by
    rw [ofNat, Tree.settle, Literal.value_spelled h]
    rfl

theorem isPlain_ofUInt32 (name : String) (w : UInt32) : (ofNat name w.toNat).IsPlain :=
  isPlain_ofNat name (Nat.lt_trans w.toNat_lt (by decide))

theorem isPlain_ofBool (name : String) (b : Bool) : (ofBool name b).IsPlain where
  spells := spells_writeBool b
  settles depth := by rw [ofBool, Tree.settle]

end Member

/-! ## Taking in an object -/

/-- Members in the order in which they are taken in, behind those that are there already. -/
def sortedIn (sorted : List (String × Phrase × Tree)) (members : List Member) : List (String × Phrase × Tree) :=
  members.foldl (fun sorted m => insertMember m.name (.spelled m.name) m.value sorted) sorted

/-- The object that members make up once they have been taken in. -/
def settled (members : List Member) : Tree := .object ((sortedIn [] members).map Prod.snd) none

theorem settleMembers_entries (depth : Nat) : ∀ (members : List Member) (sorted : List (String × Phrase × Tree)),
    (∀ m ∈ members, m.IsPlain) →
    settleMembers depth (members.map Member.entry) sorted = .ok (sortedIn sorted members)
  | [], _, _ => by
    rw [List.map_nil, settleMembers]
    rfl
  | m :: members, sorted, h => by
    have ih := settleMembers_entries depth members (insertMember m.name (.spelled m.name) m.value sorted)
      fun n hn => h n (List.mem_cons_of_mem m hn)
    rw [List.map_cons, Member.entry, settleMembers, Phrase.text_spelled, (h m List.mem_cons_self).settles]
    exact ih

theorem settle_object (depth : Nat) (hdepth : 1 < depth) {members : List Member} (h : ∀ m ∈ members, m.IsPlain) :
    (Tree.object (members.map Member.entry) none).settle depth = .ok (settled members) := by
  rw [Tree.settle, deepen, if_neg (Nat.not_le.2 hdepth)]
  simp only [Bind.bind, Except.bind, settleMembers_entries (depth - 1) members [] h]
  rfl

/-! ## Reading single values -/

theorem text_string (s : String) : (Tree.string (.spelled s)).text = .ok s := by
  rw [Tree.text, Phrase.text_spelled]
  rfl

theorem natural_number {n bits : Nat} (expected : String) (hn : n < Nat.pow 2 bits) (h : n < UInt64.size) :
    (Tree.number (.spelled n)).natural bits expected = .ok n := by
  have hn : (n : Int) < Nat.pow 2 bits := Int.ofNat_lt.2 hn
  rw [Tree.natural, Literal.value_spelled h]
  simp only [liftStop, Bind.bind, Except.bind]
  rw [if_pos ⟨Int.natCast_nonneg n, hn⟩]
  rfl

theorem natural_uint32 (w : UInt32) : (Tree.number (.spelled w.toNat)).natural 32 "u32" = .ok w.toNat := by
  have hw : w.toNat < 2 ^ 32 := w.toNat_lt
  exact natural_number "u32" hw (Nat.lt_trans hw (by decide))

end Json

namespace Session

open Json (Member Spells)

/-! ## Payloads -/

def Offer.members (o : Offer) : List Member :=
  [.ofString "codec" o.codec, .ofString "profileLevelId" o.profileLevelId, .ofNat "width" o.width.toNat,
    .ofNat "height" o.height.toNat, .ofNat "bitrate" o.bitrate.toNat, .ofString "spropParameterSets" o.parameterSets]

def Answer.members (a : Answer) : List Member :=
  [.ofBool "accepted" a.accepted, .ofString "codec" a.codec, .ofString "profileLevelId" a.profileLevelId,
    .ofString "spropParameterSets" a.parameterSets]

def Message.members : Message → List Member
  | .offer o => o.members
  | .answer a => a.members
  | .keyFrameRequest => []

theorem Message.writePayload_eq (m : Message) : m.writePayload = Json.writeObject (m.members.map Member.write) := by
  cases m <;> rfl

theorem Message.isPlain_members (m : Message) : ∀ member ∈ m.members, member.IsPlain := by
  cases m with
  | offer o =>
    simp only [members, Offer.members, List.forall_mem_cons]
    exact ⟨Member.isPlain_ofString _ _, Member.isPlain_ofString _ _, Member.isPlain_ofUInt32 _ _,
      Member.isPlain_ofUInt32 _ _, Member.isPlain_ofUInt32 _ _, Member.isPlain_ofString _ _,
      fun _ h => absurd h List.not_mem_nil⟩
  | answer a =>
    simp only [members, Answer.members, List.forall_mem_cons]
    exact ⟨Member.isPlain_ofBool _ _, Member.isPlain_ofString _ _, Member.isPlain_ofString _ _,
      Member.isPlain_ofString _ _, fun _ h => absurd h List.not_mem_nil⟩
  | keyFrameRequest => exact fun _ h => absurd h List.not_mem_nil

theorem Offer.sortedIn_members (o : Offer) : (Json.sortedIn [] o.members).map Prod.snd =
    [(.spelled "bitrate", .number (.spelled o.bitrate.toNat)), (.spelled "codec", .string (.spelled o.codec)),
      (.spelled "height", .number (.spelled o.height.toNat)),
      (.spelled "profileLevelId", .string (.spelled o.profileLevelId)),
      (.spelled "spropParameterSets", .string (.spelled o.parameterSets)),
      (.spelled "width", .number (.spelled o.width.toNat))] := by
  simp [Json.sortedIn, members, Json.insertMember, Json.precedes, Member.ofString, Member.ofNat]

theorem Answer.sortedIn_members (a : Answer) : (Json.sortedIn [] a.members).map Prod.snd =
    [(.spelled "accepted", .bool a.accepted), (.spelled "codec", .string (.spelled a.codec)),
      (.spelled "profileLevelId", .string (.spelled a.profileLevelId)),
      (.spelled "spropParameterSets", .string (.spelled a.parameterSets))] := by
  simp [Json.sortedIn, members, Json.insertMember, Json.precedes, Member.ofString, Member.ofBool]

theorem Offer.read_settled (o : Offer) : schema.read .settled (Json.settled o.members) = .ok o := by
  rw [Json.settled, sortedIn_members]
  simp [Json.Schema.read, Json.Schema.readMembers, Json.liftStop, Json.Phrase.text_spelled, schema,
    Json.Field.answersTo, Json.text_string, Json.natural_uint32, Json.Schema.missing?, Bind.bind, Except.bind, pure,
    Except.pure]

theorem Answer.read_settled (a : Answer) : schema.read .settled (Json.settled a.members) = .ok a := by
  rw [Json.settled, sortedIn_members]
  simp [Json.Schema.read, Json.Schema.readMembers, Json.liftStop, Json.Phrase.text_spelled, schema,
    Json.Field.answersTo, Json.text_string, Json.Tree.boolean, Json.Schema.missing?, Bind.bind, Except.bind, pure,
    Except.pure]

/-! ## Envelopes -/

theorem Envelope.read_written (kind : String) {payload : List Char} {t t' : Json.Tree} (ht : Spells payload t)
    (hsettle : t.settle (nestingLimit - 1) = .ok t') :
    schema.readDocument (Json.Document.read (Json.writeObject
      [Json.writeMember "type" (Json.Phrase.write kind), Json.writeMember "payload" payload])) = .ok ⟨kind, t'⟩ := by
  let members : List Member := [.ofString "type" kind, ⟨"payload", payload, t⟩]
  have hspells : ∀ m ∈ members, Spells m.text m.value := by
    simp only [members, List.forall_mem_cons]
    exact ⟨Json.spells_string kind, ht, fun _ h => absurd h List.not_mem_nil⟩
  have hread := Json.Document.read_of_spells (Spells.object hspells)
  rw [show Json.writeObject [Json.writeMember "type" (Json.Phrase.write kind), Json.writeMember "payload" payload] =
    Json.writeObject (members.map Member.write) from rfl, hread]
  simp [members, Json.Schema.readDocument, Json.Schema.read, Json.Schema.readMembers, Json.liftStop, Member.entry,
    Member.ofString, Json.Phrase.text_spelled, schema, Json.Field.answersTo, Json.text_string, hsettle,
    Json.Schema.missing?, Bind.bind, Except.bind, pure, Except.pure]

theorem asciiLower_eq {s t : String} (h : s.toList.map Char.toLower = t.toList) : asciiLower s = t := by
  rw [← String.toList_inj, asciiLower, String.toList_map, h]

theorem Envelope.examine_written (m : Message) : examine ⟨m.typeName, Json.settled m.members⟩ = .ok m := by
  have hoffer : asciiLower "offer" = "offer" := asciiLower_eq (by decide)
  have hanswer : asciiLower "answer" = "answer" := asciiLower_eq (by decide)
  have hrequest : asciiLower "pli" = "pli" := asciiLower_eq (by decide)
  unfold examine
  cases m with
  | offer o => simp [Message.typeName, Message.members, hoffer, o.read_settled]
  | answer a => simp [Message.typeName, Message.members, hanswer, a.read_settled]
  | keyFrameRequest => simp [Message.typeName, hrequest]

/-- **A written message reads back.** -/
theorem Message.parse_ofList_write (m : Message) : parse (String.ofList m.write) = .ok m := by
  have hsettle := Json.settle_object (nestingLimit - 1) (by decide) m.isPlain_members
  have hspells := Spells.object fun member hm => (m.isPlain_members member hm).spells
  rw [← m.writePayload_eq] at hspells
  rw [parse, String.toList_ofList, write, Envelope.read_written m.typeName hspells hsettle]
  exact Envelope.examine_written m

end Session
end VideoTransport
