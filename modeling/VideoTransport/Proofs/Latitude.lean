import VideoTransport.Proofs.Slots
/-!
# Latitude — however a message is worded, it reads as itself

A text for a message may name its fields in several ways, hold them and the members of the envelope in any order, leave
out texts that are empty, add members with scalars and put blanks wherever JSON has room for them (`MessageText`).  Each
of these texts reads as the message, unless a member is added that cannot be read (`AreReadable`): names are taken for
texts, and payloads are taken in as a whole, with their numbers and strings.  Then the text is refused as one that
breaks the grammar, though it does not (`Message.parse_worded_iff`).
-/
namespace VideoTransport
namespace Session

open Json (Quote Slot Scalar ScalarText ObjectText Tree Phrase Schema Field Spells Chosen Arranges Blanks MemberIsReadAs
  FailsAs)

/-! ## The texts -/

def Offer.slots (o : Offer) : List (Slot Scalar) :=
  [{ names := ["codec", "Codec"], value := .string o.codec },
   { names := ["profileLevelId", "ProfileLevelId", "profile", "Profile"], value := .string o.profileLevelId,
     isOptional := o.profileLevelId = "" },
   { names := ["width", "Width"], value := .number (.spelled o.width.toNat) },
   { names := ["height", "Height"], value := .number (.spelled o.height.toNat) },
   { names := ["bitrate", "Bitrate"], value := .number (.spelled o.bitrate.toNat) },
   { names := ["spropParameterSets", "SpropParameterSets"], value := .string o.parameterSets,
     isOptional := o.parameterSets = "" }]

def Answer.slots (a : Answer) : List (Slot Scalar) :=
  [{ names := ["accepted", "Accepted"], value := .bool a.accepted },
   { names := ["codec", "Codec"], value := .string a.codec, isOptional := a.codec = "" },
   { names := ["profileLevelId", "ProfileLevelId", "profile", "Profile"], value := .string a.profileLevelId,
     isOptional := a.profileLevelId = "" },
   { names := ["spropParameterSets", "SpropParameterSets"], value := .string a.parameterSets,
     isOptional := a.parameterSets = "" }]

def Message.slots : Message → List (Slot Scalar)
  | .offer o => o.slots
  | .answer a => a.slots
  | .keyFrameRequest => []

/-- What stands in an envelope. -/
inductive Content where
  | scalar (x : Scalar)
  | object (members : List (Quote × Scalar))
  deriving DecidableEq

inductive ContentText : Content → List Char → Prop
  | scalar {x : Scalar} {text : List Char} (h : ScalarText x text) : ContentText (.scalar x) text
  | object {members : List (Quote × Scalar)} {text : List Char} (h : ObjectText ScalarText members text) :
      ContentText (.object members) text

def Envelope.slots (kind : String) (payload : List (Quote × Scalar)) : List (Slot Content) :=
  [{ names := ["type", "Type"], value := .scalar (.string kind) },
   { names := ["payload", "Payload"], value := .object payload }]

/-- The texts for a message whose payload and envelope have members added to them. -/
inductive MessageText (m : Message) (added foreign : List (Quote × Scalar)) : List Char → Prop
  | intro {kind : String} {payload : List (Quote × Scalar)} {envelope : List (Quote × Content)}
      {before text after : List Char} (hkind : kind.toList.map Char.toLower = m.typeName.toList)
      (hpayload : Arranges m.slots added payload)
      (henvelope : Arranges (Envelope.slots kind payload) (foreign.map fun x => (x.1, .scalar x.2)) envelope)
      (htext : ObjectText ContentText envelope text) (hbefore : Blanks before) (hafter : Blanks after) :
      MessageText m added foreign (before ++ (text ++ after))

/-- What is added can be read: its names are texts, and in the payload there are values for its numbers and strings. -/
structure AreReadable (added foreign : List (Quote × Scalar)) : Prop where
  payload : ∀ x ∈ added, x.1.IsText ∧ x.2.IsHeld
  envelope : ∀ x ∈ foreign, x.1.IsText

/-! ## Payloads -/

theorem text_of_isReadAs {s : String} {t : Tree} (h : (Scalar.string s).IsReadAs t) : t.text = .ok s := by
  obtain ⟨⟩ | ⟨⟩ | ⟨⟩ | ⟨hp⟩ := h
  rw [Tree.text, hp.text]
  rfl

theorem natural_of_isReadAs {w : UInt32} {t : Tree} (h : (Scalar.number (.spelled w.toNat)).IsReadAs t) :
    t.natural 32 "u32" = .ok w.toNat := by
  cases h
  exact Json.natural_uint32 w

theorem boolean_of_isReadAs {b : Bool} {t : Tree} (h : (Scalar.bool b).IsReadAs t) : t.boolean = .ok b := by
  cases h
  rfl

def Offer.fits (o : Offer) : schema.Fits Scalar.IsReadAs o.slots o where
  fills := List.zipWith Schema.Filling.mk schema.fields
    [fun r => { r with codec := o.codec }, fun r => { r with profileLevelId := o.profileLevelId },
      fun r => { r with width := o.width }, fun r => { r with height := o.height },
      fun r => { r with bitrate := o.bitrate }, fun r => { r with parameterSets := o.parameterSets }]
  fields := rfl
  nodup := by decide
  unambiguous := by simp [schema, Field.answersTo]
  takes := by
    refine .cons ⟨rfl, fun t ht r => by simp [text_of_isReadAs ht], fun h => by cases h⟩ ?_
    refine .cons ⟨rfl, fun t ht r => by simp [text_of_isReadAs ht], fun h => ⟨rfl, ?_⟩⟩ ?_
    · rw [of_decide_eq_true h]
      rfl
    refine .cons ⟨rfl, fun t ht r => by simp [natural_of_isReadAs ht], fun h => by cases h⟩ ?_
    refine .cons ⟨rfl, fun t ht r => by simp [natural_of_isReadAs ht], fun h => by cases h⟩ ?_
    refine .cons ⟨rfl, fun t ht r => by simp [natural_of_isReadAs ht], fun h => by cases h⟩ ?_
    refine .cons ⟨rfl, fun t ht r => by simp [text_of_isReadAs ht], fun h => ⟨rfl, ?_⟩⟩ .nil
    rw [of_decide_eq_true h]
    rfl
  commute := by
    simp only [schema, List.zipWith_cons_cons, List.zipWith_nil_right, List.forall_mem_cons, List.not_mem_nil,
      false_imp_iff, implies_true, and_true, and_self]
  makes := rfl

def Answer.fits (a : Answer) : schema.Fits Scalar.IsReadAs a.slots a where
  fills := List.zipWith Schema.Filling.mk schema.fields
    [fun r => { r with accepted := a.accepted }, fun r => { r with codec := a.codec },
      fun r => { r with profileLevelId := a.profileLevelId }, fun r => { r with parameterSets := a.parameterSets }]
  fields := rfl
  nodup := by decide
  unambiguous := by simp [schema, Field.answersTo]
  takes := by
    refine .cons ⟨rfl, fun t ht r => by simp [boolean_of_isReadAs ht], fun h => by cases h⟩ ?_
    refine .cons ⟨rfl, fun t ht r => by simp [text_of_isReadAs ht], fun h => ⟨rfl, ?_⟩⟩ ?_
    · rw [of_decide_eq_true h]
      rfl
    refine .cons ⟨rfl, fun t ht r => by simp [text_of_isReadAs ht], fun h => ⟨rfl, ?_⟩⟩ ?_
    · rw [of_decide_eq_true h]
      rfl
    refine .cons ⟨rfl, fun t ht r => by simp [text_of_isReadAs ht], fun h => ⟨rfl, ?_⟩⟩ .nil
    rw [of_decide_eq_true h]
    rfl
  commute := by
    simp only [schema, List.zipWith_cons_cons, List.zipWith_nil_right, List.forall_mem_cons, List.not_mem_nil,
      false_imp_iff, implies_true, and_true, and_self]
  makes := rfl

theorem skip_of_isReadAs {x : Scalar} {t : Tree} (h : x.IsReadAs t) : t.skip = .ok () := by
  cases h with
  | string h => rw [Tree.skip, h.stop]
  | _ => rw [Tree.skip]

/-- The names of the fields of a message are different, and there is a value for each of their numbers. -/
theorem Message.slots_wellFormed (m : Message) :
    (m.slots.flatMap (·.names)).Nodup ∧ ∀ slot ∈ m.slots, slot.value.IsHeld := by
  have hheld (w : UInt32) : (Scalar.number (.spelled w.toNat)).IsHeld :=
    ⟨_, Json.Literal.value_spelled (Nat.lt_trans w.toNat_lt (by decide))⟩
  cases m with
  | offer o =>
    refine ⟨by simp [slots, Offer.slots], ?_⟩
    simp only [slots, Offer.slots, List.forall_mem_cons, hheld]
    simp [Scalar.IsHeld]
  | answer a =>
    refine ⟨by simp [slots, Answer.slots], ?_⟩
    simp [slots, Answer.slots, Scalar.IsHeld]
  | keyFrameRequest => exact ⟨.nil, fun _ h => absurd h List.not_mem_nil⟩

/-- **A payload that was taken in is examined to its message**, however its members are arranged. -/
theorem Envelope.examine_arranged {m : Message} {kind : String} {added payload : List (Quote × Scalar)}
    (hkind : kind.toList.map Char.toLower = m.typeName.toList) (hpayload : Arranges m.slots added payload)
    (hnames : ∀ x ∈ added, x.1.IsText) {entries : List (Phrase × Tree)}
    (hread : List.Forall₂ (MemberIsReadAs Scalar.IsReadAs) payload entries) :
    examine ⟨kind, .object entries none⟩ = .ok m := by
  have hskip : ∀ x ∈ added, ∀ t, x.2.IsReadAs t → t.skip = .ok () := fun _ _ _ h => skip_of_isReadAs h
  unfold examine
  cases m with
  | offer o => simp [asciiLower_eq (t := "offer") hkind, o.fits.read hpayload hnames hskip hread]
  | answer a => simp [asciiLower_eq (t := "answer") hkind, a.fits.read hpayload hnames hskip hread]
  | keyFrameRequest => simp [asciiLower_eq (t := "pli") hkind]

/-! ## Envelopes -/

inductive Content.IsReadAs : Content → Tree → Prop
  | scalar {x : Scalar} {t : Tree} (h : x.IsReadAs t) : IsReadAs (.scalar x) t
  | object {members : List (Quote × Scalar)} {entries : List (Phrase × Tree)}
      (h : List.Forall₂ (MemberIsReadAs Scalar.IsReadAs) members entries) :
      IsReadAs (.object members) (.object entries none)

theorem ContentText.spells (c : Content) (text : List Char) (h : ContentText c text) :
    ∃ t, c.IsReadAs t ∧ Spells text t := by
  cases h with
  | scalar h =>
    obtain ⟨t, ht, hspells⟩ := h.spells
    exact ⟨t, .scalar ht, hspells⟩
  | object h =>
    obtain ⟨entries, hentries, hspells⟩ := h.spells fun _ _ hx => ScalarText.spells hx
    exact ⟨.object entries none, .object hentries, hspells⟩

theorem Envelope.find?_type {name : String} (h : name ∈ ["type", "Type"]) :
    schema.fields.find? (·.answersTo name) = some schema.fields[0] := by
  simp only [List.mem_cons, List.not_mem_nil, or_false] at h
  rcases h with rfl | rfl <;> rfl

theorem Envelope.find?_payload {name : String} (h : name ∈ ["payload", "Payload"]) :
    schema.fields.find? (·.answersTo name) = some schema.fields[1] := by
  simp only [List.mem_cons, List.not_mem_nil, or_false] at h
  rcases h with rfl | rfl <;> rfl

/-- What an envelope is read as: its type, its payload, and members without a field. -/
structure Envelope.Consists (kind : String) (payload foreign : List (Quote × Scalar)) (type : Phrase × Tree)
    (key : Phrase) (members passed entries : List (Phrase × Tree)) : Prop where
  says_type : ∃ name ∈ ["type", "Type"], MemberIsReadAs Scalar.IsReadAs (↑name, .string kind) type
  says_payload : ∃ name ∈ ["payload", "Payload"], key.Says name
  reads : List.Forall₂ (MemberIsReadAs Scalar.IsReadAs) payload members
  passes : List.Forall₂ (MemberIsReadAs Scalar.IsReadAs) foreign passed
  unfielded : ∀ x ∈ foreign, ∀ f ∈ schema.fields, ∀ name ∈ f.name :: f.aliases, x.1 ≠ ↑name
  perm : entries.Perm ([type, (key, .object members none)] ++ passed)

theorem Envelope.consists_of_arranges {kind : String} {payload foreign : List (Quote × Scalar)}
    {envelope : List (Quote × Content)}
    (henvelope : Arranges (slots kind payload) (foreign.map fun x => (x.1, .scalar x.2)) envelope)
    {entries : List (Phrase × Tree)} (hread : List.Forall₂ (MemberIsReadAs Content.IsReadAs) envelope entries) :
    ∃ type key members passed, Consists kind payload foreign type key members passed entries := by
  obtain ⟨chosen, stored, passed, hchosen, hstored, hpassed, hperm⟩ := henvelope.entries hread
  -- both fields are written
  rw [slots] at hchosen
  obtain _ | ⟨htype, hchosen⟩ | ⟨h, -⟩ := hchosen
  case leftOut => cases h
  obtain _ | ⟨hpayload, hchosen⟩ | ⟨h, -⟩ := hchosen
  case leftOut => cases h
  cases hchosen
  obtain _ | ⟨⟨htypeName, hkind⟩, hstored⟩ := hstored
  obtain _ | ⟨hpayloadRead, hstored⟩ := hstored
  cases hstored
  rename_i payloadEntry
  obtain ⟨key, tree⟩ := payloadEntry
  obtain ⟨hkey, hvalue⟩ := hpayloadRead
  obtain ⟨hkind⟩ := hkind
  obtain _ | ⟨hmembers⟩ := hvalue
  have hpasses : List.Forall₂ (MemberIsReadAs Scalar.IsReadAs) foreign passed := by
    refine (List.forall₂_map_left_iff.1 hpassed).imp fun x e hx => ?_
    obtain ⟨hscalar⟩ := hx.value
    exact ⟨hx.name, hscalar⟩
  refine ⟨_, key, _, passed, ⟨_, htype, htypeName, hkind⟩, ⟨_, hpayload, hkey⟩, hmembers, hpasses, ?_, hperm⟩
  intro x hx
  have hnames := henvelope.foreign _ (List.mem_map_of_mem hx)
  simp only [slots, List.forall_mem_cons] at hnames
  simp only [schema, List.forall_mem_cons]
  exact ⟨hnames.1, hnames.2.1, fun _ h => absurd h List.not_mem_nil⟩

namespace Envelope.Consists

variable {kind : String} {payload foreign : List (Quote × Scalar)} {type : Phrase × Tree} {key : Phrase}
  {members passed entries : List (Phrase × Tree)}

theorem find?_of_mem_passed (h : Consists kind payload foreign type key members passed entries) {e : Phrase × Tree}
    (he : e ∈ passed) {name : String} (hname : e.1.text = .ok name) :
    schema.fields.find? (·.answersTo name) = none := by
  obtain ⟨x, hx, hxe⟩ := Json.exists_of_forall₂ h.passes e he
  exact Schema.find?_eq_none fun f hf hmem => h.unfielded x hx f hf name hmem (hxe.name.text_eq_ok_iff.1 hname)

/-- **An envelope is read as its type and what its payload is taken in as**, when its foreign members have names. -/
theorem read (h : Consists kind payload foreign type key members passed entries) (hforeign : ∀ x ∈ foreign, x.1.IsText)
    {t : Tree} (ht : (Tree.object members none).settle (nestingLimit - 1) = .ok t) :
    schema.read .text (.object entries none) = .ok ⟨kind, t⟩ := by
  obtain ⟨typeName, htype, htypeText, hkind⟩ := h.says_type
  obtain ⟨payloadName, hpayload, hkey⟩ := h.says_payload
  let typeStored : schema.Stored := ⟨⟨schema.fields[0], fun e => { e with kind := kind }⟩, type, typeName,
    htypeText.text, find?_type htype, fun e => by simp [schema, text_of_isReadAs hkind]⟩
  let payloadStored : schema.Stored := ⟨⟨schema.fields[1], fun e => { e with payload := t }⟩,
    (key, .object members none), payloadName, hkey.text, find?_payload hpayload,
    fun e => by simp [schema, ht, Json.liftStop]⟩
  have hpassed : ∀ e ∈ passed, schema.IsForeign e := by
    intro e he
    obtain ⟨x, hx, hxe⟩ := Json.exists_of_forall₂ h.passes e he
    obtain ⟨name, hname⟩ := hforeign x hx
    have htext := hxe.name.text_eq_ok_iff.2 hname
    exact ⟨⟨name, htext, h.find?_of_mem_passed he htext⟩, skip_of_isReadAs hxe.value⟩
  have hnames : (["type", "payload"] : List String).Nodup := by decide
  refine Schema.read_of_perm [typeStored, payloadStored] h.perm hpassed hnames ?_ ?_ _
  · simp only [List.forall_mem_cons, List.not_mem_nil, false_imp_iff, implies_true, and_true, and_self, typeStored,
      payloadStored]
  · simp [schema, typeStored, payloadStored]

theorem fieldFor_type (h : Consists kind payload foreign type key members passed entries) :
    schema.fieldFor type = some schema.fields[0] := by
  obtain ⟨name, hname, htext, -⟩ := h.says_type
  rw [Schema.fieldFor, htext.text]
  exact find?_type hname

theorem fieldFor_payload (h : Consists kind payload foreign type key members passed entries) :
    schema.fieldFor (key, .object members none) = some schema.fields[1] := by
  obtain ⟨name, hname, htext⟩ := h.says_payload
  rw [Schema.fieldFor, htext.text]
  exact find?_payload hname

theorem fieldFor_of_mem_passed (h : Consists kind payload foreign type key members passed entries) {e : Phrase × Tree}
    (he : e ∈ passed) : schema.fieldFor e = none := by
  rw [Schema.fieldFor]
  cases hname : e.1.text with
  | error stop => rfl
  | ok name => exact h.find?_of_mem_passed he hname

theorem filterMap_fieldFor (h : Consists kind payload foreign type key members passed entries) :
    (entries.filterMap schema.fieldFor).Perm schema.fields := by
  have hfiltered := h.perm.filterMap schema.fieldFor
  rwa [List.filterMap_append, List.filterMap_eq_nil_iff.2 fun e he => h.fieldFor_of_mem_passed he, List.append_nil,
    List.filterMap_cons_some h.fieldFor_type, List.filterMap_cons_some h.fieldFor_payload, List.filterMap_nil]
    at hfiltered

/-- Where an envelope cannot be read, it is taken for a text that breaks the grammar. -/
theorem failsAs (h : Consists kind payload foreign type key members passed entries) (e : Envelope) :
    FailsAs .malformed (schema.readMembers entries [] e) := by
  refine Schema.failsAs_readMembers (fun e he => ?_) ?_
  · rcases List.mem_append.1 (h.perm.mem_iff.1 he) with he | he
    · simp only [List.mem_cons, List.not_mem_nil, or_false] at he
      rcases he with rfl | rfl
      · obtain ⟨_, -, htext, hkind⟩ := h.says_type
        refine .of_field h.fieldFor_type htext.failsAs_text fun r => ?_
        simp only [schema, List.getElem_cons_zero, text_of_isReadAs hkind]
        exact .ok _
      · obtain ⟨_, -, hkey⟩ := h.says_payload
        exact .of_field h.fieldFor_payload hkey.failsAs_text fun r =>
          (Json.failsAs_settle_object h.reads).liftStop.bind fun _ _ => .ok _
    · obtain ⟨x, -, hxe⟩ := Json.exists_of_forall₂ h.passes e he
      exact .of_foreign (h.fieldFor_of_mem_passed he) hxe.name.failsAs_text (skip_of_isReadAs hxe.value)
  · rw [List.append_nil, (h.filterMap_fieldFor.map _).nodup_iff]
    decide

/-- An envelope that is read has a payload that is taken in, and names for all of its members. -/
theorem isText_of_readMembers (h : Consists kind payload foreign type key members passed entries) {e : Envelope}
    {out : List String × Envelope} (hout : schema.readMembers entries [] e = .ok out) :
    (∀ x ∈ foreign, x.1.IsText) ∧ ∃ t, (Tree.object members none).settle (nestingLimit - 1) = .ok t := by
  have hstores := Schema.store_of_readMembers hout
  constructor
  · intro x hx
    obtain ⟨e, he, hxe⟩ := Json.exists_of_forall₂ h.passes.flip x hx
    obtain ⟨name, hname, -⟩ := hstores e (h.perm.mem_iff.2 (List.mem_append_right _ he))
    exact ⟨name, hxe.name.text_eq_ok_iff.1 hname⟩
  · obtain ⟨payloadName, hpayload, hkey⟩ := h.says_payload
    obtain ⟨name, hname, hstore⟩ := hstores (key, .object members none) (h.perm.mem_iff.2 (by simp))
    obtain rfl := Except.ok.inj (hkey.text.symm.trans hname)
    obtain ⟨r, r', hstore⟩ := hstore _ (find?_payload hpayload)
    obtain ⟨t, ht, -⟩ := Json.exists_of_bind_eq_ok hstore
    exact ⟨t, Json.liftStop_eq_ok_iff.1 ht⟩

end Envelope.Consists

/-! ## Messages -/

section Parsing

variable {m : Message} {added foreign : List (Quote × Scalar)} {raw : String}

/-- What a text for a message parses to hangs on taking in its payload, and then on the payload. -/
theorem MessageText.parse_eq (h : MessageText m added foreign raw.toList) : ∃ kind payload members,
    kind.toList.map Char.toLower = m.typeName.toList ∧ Arranges m.slots added payload ∧
      List.Forall₂ (MemberIsReadAs Scalar.IsReadAs) payload members ∧
      ((∀ x ∈ foreign, x.1.IsText) → ∀ t, (Tree.object members none).settle (nestingLimit - 1) = .ok t →
        Message.parse raw = Envelope.examine ⟨kind, t⟩) ∧
      (Message.parse raw = .error .malformed ∨
        (∀ x ∈ foreign, x.1.IsText) ∧ ∃ t, (Tree.object members none).settle (nestingLimit - 1) = .ok t) := by
  generalize htoList : raw.toList = whole at h
  obtain ⟨hkind, hpayload, henvelope, htext, hbefore, hafter⟩ := h
  rename_i kind payload envelope before text after
  obtain ⟨entries, hentries, hspells⟩ := htext.spells ContentText.spells
  obtain ⟨type, key, members, passed, hconsists⟩ := Envelope.consists_of_arranges henvelope hentries
  have hparse : Message.parse raw = Envelope.schema.read .text (.object entries none) >>= Envelope.examine := by
    rw [Message.parse, htoList, Json.Document.read_padded hspells hbefore hafter, Schema.readDocument]
    cases Envelope.schema.read .text (.object entries none) <;> rfl
  refine ⟨kind, payload, members, hkind, hpayload, hconsists.reads, fun hforeign t ht => ?_, ?_⟩
  · rw [hparse, hconsists.read hforeign ht]
    rfl
  · cases hread : Envelope.schema.readMembers entries [] Envelope.schema.initial with
    | error failure =>
      left
      rw [hparse, Schema.read, hread, hconsists.failsAs _ failure hread]
      rfl
    | ok out => exact .inr (hconsists.isText_of_readMembers hread)

theorem MessageText.areReadable_of_parse (h : MessageText m added foreign raw.toList)
    (hparse : Message.parse raw ≠ .error .malformed) : AreReadable added foreign := by
  obtain ⟨kind, payload, members, -, hpayload, hmembers, -, hread⟩ := h.parse_eq
  obtain ⟨chosen, -, hperm⟩ := hpayload.chosen
  obtain ⟨hforeign, t, ht⟩ := hread.resolve_left hparse
  exact ⟨fun x hx => Json.isHeld_of_settle_object hmembers ht x (hperm.mem_iff.2 (List.mem_append_right chosen hx)),
    hforeign⟩

theorem MessageText.parse_of_areReadable (h : MessageText m added foreign raw.toList)
    (hadded : AreReadable added foreign) : Message.parse raw = .ok m := by
  obtain ⟨kind, payload, members, hkind, hpayload, hmembers, hparse, -⟩ := h.parse_eq
  obtain ⟨hnodup, hslots⟩ := m.slots_wellFormed
  obtain ⟨chosen, hchosen, hperm⟩ := hpayload.chosen
  have hheld : ∀ x ∈ payload, x.1.IsText ∧ x.2.IsHeld := by
    intro x hx
    rcases List.mem_append.1 (hperm.mem_iff.1 hx) with hx | hx
    · obtain ⟨slot, hslot, ⟨name, -, hname⟩, hvalue⟩ := hchosen.exists_slot x hx
      exact ⟨⟨name, hname⟩, hvalue ▸ hslots slot hslot⟩
    · exact hadded.payload x hx
  have hdepth : 1 < nestingLimit - 1 := by decide
  obtain ⟨members', hmembers', hsettle⟩ :=
    Json.settle_object_of_nodup hmembers hheld (hpayload.nodup_names hnodup) hdepth
  -- the members that were taken in are arranged too
  obtain ⟨payload', hread', hperm'⟩ := List.perm_comp_forall₂ hmembers' hmembers.flip
  rw [hparse hadded.envelope _ hsettle]
  exact Envelope.examine_arranged hkind (hpayload.of_perm hperm') (fun x hx => (hadded.payload x hx).1) hread'.flip

/-- **A message reads as itself however it is worded, unless something is added to it that cannot be read**: then its
text is refused. -/
theorem Message.parse_worded_iff (h : MessageText m added foreign raw.toList) :
    (parse raw = .ok m ↔ AreReadable added foreign) ∧
      (parse raw = .error .malformed ↔ ¬AreReadable added foreign) := by
  constructor
  · exact ⟨fun hok => h.areReadable_of_parse (by rw [hok]; exact nofun), h.parse_of_areReadable⟩
  · refine ⟨fun herror hadded => ?_, fun hadded => by_contra fun hne => hadded (h.areReadable_of_parse hne)⟩
    rw [h.parse_of_areReadable hadded] at herror
    cases herror

end Parsing

/-! ## An offer in an unusual wording -/

def oddOffer : Offer := { codec := "H264", profileLevelId := "42e01f", width := 640, height := 480, bitrate := 9 }

/-- The members of the offer from last to first, under some of their names, with a member before them. -/
def oddPayload (x : Scalar) (text : List Char) : List (String × Scalar × List Char) :=
  [("x", x, text), ("Bitrate", .number (.spelled 9), Json.writeNat 9),
   ("Height", .number (.spelled 480), Json.writeNat 480), ("width", .number (.spelled 640), Json.writeNat 640),
   ("Profile", .string "42e01f", Phrase.write "42e01f"), ("codec", .string "H264", Phrase.write "H264")]

def oddText (x : Scalar) (text : List Char) : List Char :=
  ' ' :: (Json.writeObject
    [Json.writeMember "y" (Json.writeBool true),
     Json.writeMember "Payload" (Json.writeObject ((oddPayload x text).map fun m => Json.writeMember m.1 m.2.2)),
     Json.writeMember "Type" (Phrase.write "oFFer")] ++ ['\n'])

theorem messageText_oddText {x : Scalar} {text : List Char} (h : ScalarText x text) :
    MessageText (.offer oddOffer) [("x", x)] [("y", .bool true)] (String.ofList (oddText x text)).toList := by
  have hscalars : ∀ m ∈ oddPayload x text, ScalarText m.2.1 m.2.2 := by
    simp only [oddPayload, List.forall_mem_cons]
    exact ⟨h, .number (Json.numberText_writeNat 9), .number (Json.numberText_writeNat 480),
      .number (Json.numberText_writeNat 640), .string (Json.quoteText_write _), .string (Json.quoteText_write _),
      fun _ h => absurd h List.not_mem_nil⟩
  let members : List (Quote × Scalar) := (oddPayload x text).map fun m => (↑m.1, m.2.1)
  let envelope : List (String × Content × List Char) :=
    [("y", .scalar (.bool true), Json.writeBool true),
     ("Payload", .object members, Json.writeObject ((oddPayload x text).map fun m => Json.writeMember m.1 m.2.2)),
     ("Type", .scalar (.string "oFFer"), Phrase.write "oFFer")]
  have hcontents : ∀ m ∈ envelope, ContentText m.2.1 m.2.2 := by
    simp only [envelope, List.forall_mem_cons]
    exact ⟨.scalar (.bool true), .object (Json.objectText_writeObject _ hscalars),
      .scalar (.string (Json.quoteText_write _)), fun _ h => absurd h List.not_mem_nil⟩
  have hpayload : Arranges (Message.offer oddOffer).slots [("x", x)] members := by
    refine ⟨⟨members.tail.reverse, ?_, (List.reverse_perm members).symm⟩, by simp, ?_⟩
    · exact .written (by decide) (.written (by decide) (.written (by decide) (.written (by decide)
        (.written (by decide) (.leftOut rfl .nil)))))
    · simp [Message.slots, Offer.slots]
  have henvelope : Arranges (Envelope.slots "oFFer" members)
      ([(("y" : Quote), Scalar.bool true)].map fun x => (x.1, .scalar x.2)) (envelope.map fun m => (↑m.1, m.2.1)) := by
    refine ⟨⟨[("Type", .scalar (.string "oFFer")), ("Payload", .object members)], ?_, (List.reverse_perm _).symm⟩,
      by simp, by simp [Envelope.slots]⟩
    exact .written (by decide) (.written (by simp) .nil)
  have hbefore : Blanks [' '] := List.forall_mem_singleton.2 (by decide)
  have hafter : Blanks ['\n'] := List.forall_mem_singleton.2 (by decide)
  rw [String.toList_ofList]
  exact .intro (by decide) hpayload henvelope (Json.objectText_writeObject envelope hcontents) hbefore hafter

/-- The offer is read past a number that is added to it. -/
theorem Message.parse_oddText :
    MessageText (.offer oddOffer) [("x", .number ⟨false, ['1'], ['5'], none⟩)] [("y", .bool true)]
      (String.ofList (oddText (.number ⟨false, ['1'], ['5'], none⟩) ['1', '.', '5'])).toList ∧
    parse (String.ofList (oddText (.number ⟨false, ['1'], ['5'], none⟩) ['1', '.', '5'])) = .ok (.offer oddOffer) := by
  have hnumber : Json.NumberText ⟨false, ['1'], ['5'], none⟩ ['1', '.', '5'] :=
    .intro (by decide) (by simp) (by decide) (by simp) .none
  have htext := messageText_oddText (.number hnumber)
  refine ⟨htext, (parse_worded_iff htext).1.2 ⟨?_, ?_⟩⟩
  · exact List.forall_mem_singleton.2 ⟨Quote.isText_ofString "x", _, rfl⟩
  · exact List.forall_mem_singleton.2 (Quote.isText_ofString "y")

/-- A number beyond all doubles. -/
def tooLarge : Json.Literal := ⟨false, ['1'], [], some (false, ['9', '9', '9'])⟩

/-- Half of a character that stands alone. -/
def half : Quote := ⟨[0xD800], by decide⟩

theorem not_isText_half : ¬half.IsText := by
  rintro ⟨s, hs⟩
  have hunits : [0xD800] = s.toList.flatMap Json.codeUnits := congrArg Quote.units hs
  obtain ⟨v, us, hnil, -⟩ := (Json.isTrailing_of_flatMap hunits).2 rfl
  cases hnil

/-- The same offer cannot be read past a number that is too large, nor past a string that is no text. -/
theorem Message.parse_oddText_ne :
    let large := oddText (.number tooLarge) ['1', 'e', '9', '9', '9']
    let halved := oddText (.string half) ['"', '\\', 'u', 'd', '8', '0', '0', '"']
    (MessageText (.offer oddOffer) [("x", .number tooLarge)] [("y", .bool true)] (String.ofList large).toList ∧
      parse (String.ofList large) ≠ .ok (.offer oddOffer)) ∧
    MessageText (.offer oddOffer) [("x", .string half)] [("y", .bool true)] (String.ofList halved).toList ∧
      parse (String.ofList halved) ≠ .ok (.offer oddOffer) := by
  intro large halved
  have hexponent : Json.ExponentText (some (false, ['9', '9', '9'])) ('e' :: ([] ++ ['9', '9', '9'])) :=
    .some (.inl rfl) (by decide) (by decide) (by simp)
  have hnumber : Json.NumberText tooLarge ['1', 'e', '9', '9', '9'] :=
    .intro (by decide) (by simp [tooLarge]) (by decide) (by simp [tooLarge]) hexponent
  have hunit : Json.IsUnit ['d', '8', '0', '0'] 0xD800 := ⟨13, 8, 0, 0, by decide, rfl⟩
  have hstring : Json.QuoteText half ['"', '\\', 'u', 'd', '8', '0', '0', '"'] :=
    .intro (.cons (.unit hunit) .nil) rfl
  have hneither {x : Scalar} {text : List Char} (htext : ScalarText x text) (hx : ¬x.IsHeld) :
      parse (String.ofList (oddText x text)) ≠ .ok (.offer oddOffer) := by
    intro hok
    have hreadable := (messageText_oddText htext).areReadable_of_parse (by rw [hok]; exact nofun)
    exact hx (List.forall_mem_singleton.1 hreadable.payload).2
  refine ⟨⟨messageText_oddText (.number hnumber), hneither (.number hnumber) ?_⟩,
    messageText_oddText (.string hstring), hneither (.string hstring) not_isText_half⟩
  rintro ⟨n, hn⟩
  have hvalue : tooLarge.value = .error .malformed := rfl
  rw [hvalue] at hn
  cases hn

end Session
end VideoTransport
