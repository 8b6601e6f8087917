import VideoTransport.Proofs.Following
import VideoTransport.Proofs.Routing
/-!
# Advertisement — parameter sets for whoever wants to join

A packetizer keeps the first sequence parameter set and the first picture parameter set that pass through, however many
packets are taken of a unit and whatever the cipher makes of them (`Packetizer.keepsFirst_serve`).  As text they read back:
base64 as the sets (`Base64.decode_encode`), and the hexadecimal profile and level as the octets behind the header
(`Bytes.ofHex_toHex`).  So what is advertised names the first sets of the whole history (`Packetizer.advertises_first`).
-/
namespace VideoTransport

/-! ## Octets as text -/

namespace Base64

theorem value_symbol {n : Nat} (h : n < 64) : value? (symbol n) = some n := by
  have hall : ∀ n : Fin 64, value? (symbol n) = some n.val := by decide
  exact hall ⟨n, h⟩

/-- A character that stands for no number is not in the alphabet. -/
theorem symbol_ne {c : Char} (hc : value? c = none) {n : Nat} (h : n < 64) : symbol n ≠ c := by
  rintro rfl
  rw [value_symbol h] at hc
  cases hc

theorem symbol_ne_equals {n : Nat} (h : n < 64) : symbol n ≠ '=' := symbol_ne rfl h

variable {p q r s : Nat}

theorem decode_whole (hp : p < 64) (hq : q < 64) (hr : r < 64) (hs : s < 64) (rest : List Char) :
    decode (symbol p :: symbol q :: symbol r :: symbol s :: rest) =
      (decode rest).map fun tail =>
        UInt8.ofNat (p * 4 + q / 16) :: UInt8.ofNat (q * 16 + r / 4) :: UInt8.ofNat (r * 64 + s) :: tail := by
  simp only [decode, value_symbol hp, value_symbol hq, value_symbol hr, value_symbol hs, symbol_ne_equals hr,
    symbol_ne_equals hs]
  cases decode rest <;> rfl

theorem decode_two (hp : p < 64) (hq : q < 64) (hr : r < 64) (hzero : r % 4 = 0) :
    decode [symbol p, symbol q, symbol r, '='] =
      some [UInt8.ofNat (p * 4 + q / 16), UInt8.ofNat (q * 16 + r / 4)] := by
  simp only [decode, value_symbol hp, value_symbol hq, value_symbol hr, symbol_ne_equals hr, Option.bind_eq_bind,
    Option.bind_some, hzero]
  rfl

theorem decode_one (hp : p < 64) (hq : q < 64) (hzero : q % 16 = 0) :
    decode [symbol p, symbol q, '=', '='] = some [UInt8.ofNat (p * 4 + q / 16)] := by
  simp only [decode, value_symbol hp, value_symbol hq, Option.bind_eq_bind, Option.bind_some, hzero]
  rfl

theorem ofNat_eq {a : UInt8} {n : Nat} (h : n % 256 = a.toNat) : UInt8.ofNat n = a := by
  rw [← UInt8.toNat_inj, UInt8.toNat_ofNat', h]

/-- **Base64 reads back.** -/
theorem decode_encode : ∀ bytes : Bytes, decode (encode bytes) = some bytes
  | [] => rfl
  | [a] => by
    have ha := a.toNat_lt
    rw [encode, decode_one (by omega) (by omega) (by omega), ofNat_eq (a := a) (by omega)]
  | [a, b] => by
    have ha := a.toNat_lt
    have hb := b.toNat_lt
    rw [encode, decode_two (by omega) (by omega) (by omega) (by omega), ofNat_eq (a := a) (by omega),
      ofNat_eq (a := b) (by omega)]
  | a :: b :: c :: rest => by
    have ha := a.toNat_lt
    have hb := b.toNat_lt
    have hc := c.toNat_lt
    rw [encode, decode_whole (by omega) (by omega) (by omega) (by omega), decode_encode rest, Option.map_some,
      ofNat_eq (a := a) (by omega), ofNat_eq (a := b) (by omega), ofNat_eq (a := c) (by omega)]

/-- Base64 has only characters of the alphabet and equals signs. -/
theorem not_mem_encode {c : Char} (hvalue : value? c = none) (hequals : c ≠ '=') (bytes : Bytes) :
    c ∉ encode bytes := by
  have hsymbol {n : Nat} (h : n < 64) : c ≠ symbol n := (symbol_ne hvalue h).symm
  fun_induction encode bytes with
  | case1 a b d rest ih =>
    have ha := a.toNat_lt
    have hb := b.toNat_lt
    have hd := d.toNat_lt
    simp only [List.mem_cons, not_or]
    exact ⟨hsymbol (by omega), hsymbol (by omega), hsymbol (by omega), hsymbol (by omega), ih⟩
  | case2 a b =>
    have ha := a.toNat_lt
    have hb := b.toNat_lt
    simp only [List.mem_cons, not_or]
    exact ⟨hsymbol (by omega), hsymbol (by omega), hsymbol (by omega), hequals, List.not_mem_nil⟩
  | case3 a =>
    have ha := a.toNat_lt
    simp only [List.mem_cons, not_or]
    exact ⟨hsymbol (by omega), hsymbol (by omega), hequals, hequals, List.not_mem_nil⟩
  | case4 => exact List.not_mem_nil

end Base64

namespace Bytes

theorem hexValue_half {n : Nat} (h : n < 16) : Text.hexValue? (Text.hexDigit n) = some n :=
  Text.hexValue_hexDigit ⟨n, h⟩

theorem hexDigit_mem {n : Nat} (h : n < 16) : Text.hexDigit n ∈ "0123456789abcdef".toList := by
  have hall : ∀ n : Fin 16, Text.hexDigit n ∈ "0123456789abcdef".toList := by decide
  exact hall ⟨n, h⟩

/-- **Hexadecimal text reads back.** -/
theorem ofHex_toHex (bytes : Bytes) : ofHex? (toHex bytes) = some bytes := by
  rw [ofHex?, toHex, String.toList_ofList]
  induction bytes with
  | nil => rfl
  | cons b rest ih =>
    have hb := b.toNat_lt
    have hhalves : UInt8.ofNat (b.toNat / 16 * 16 + b.toNat % 16) = b := Base64.ofNat_eq (by omega)
    rw [List.flatMap_cons, List.cons_append, List.cons_append, List.nil_append, ofHexDigits?,
      hexValue_half (by omega), hexValue_half (by omega), ih]
    exact congrArg (fun octet => some (octet :: rest)) hhalves

/-- Hexadecimal text is in lower case. -/
theorem mem_toHex {bytes : Bytes} {c : Char} (h : c ∈ (toHex bytes).toList) : c ∈ "0123456789abcdef".toList := by
  rw [toHex, String.toList_ofList] at h
  obtain ⟨b, -, hc⟩ := List.mem_flatMap.1 h
  have hb := b.toNat_lt
  rw [List.mem_cons, List.mem_singleton] at hc
  rcases hc with rfl | rfl
  · exact hexDigit_mem (by omega)
  · exact hexDigit_mem (by omega)

end Bytes

/-! ## What is kept -/

namespace Packetizer

variable {p : Packetizer}

/-- The first NAL unit of a type. -/
def first? (kind : UInt8) (nals : List Bytes) : Option Bytes := nals.find? fun nal => Nal.kind? nal = some kind

theorem first?_append (kind : UInt8) (nals later : List Bytes) :
    first? kind (nals ++ later) = (first? kind nals).or (first? kind later) := List.find?_append

/-- A packetizer after access units, with the number of packets taken of each of them. -/
def serve : Packetizer → List (AccessUnit × Nat) → Packetizer
  | p, [] => p
  | p, (u, taken) :: rest => serve ((p.begin u).2.pull taken (p.begin u).1).2.1 rest

/-- The NAL units of all access units begun. -/
def seen (calls : List (AccessUnit × Nat)) : List Bytes := calls.flatMap fun call => AnnexB.nalUnits call.1.bytes

/-- The parameter sets kept are the first ones of their types among NAL units, unless some were kept before. -/
structure KeepsFirst (p : Packetizer) (nals : List Bytes) (q : Packetizer) : Prop where
  sequenceSet : q.sequenceSet = p.sequenceSet.or (first? 7 nals)
  pictureSet : q.pictureSet = p.pictureSet.or (first? 8 nals)

theorem KeepsFirst.trans {q r : Packetizer} {nals later : List Bytes} (h : KeepsFirst p nals q)
    (hr : KeepsFirst q later r) : KeepsFirst p (nals ++ later) r where
  sequenceSet := by rw [hr.sequenceSet, h.sequenceSet, Option.or_assoc, first?_append]
  pictureSet := by rw [hr.pictureSet, h.pictureSet, Option.or_assoc, first?_append]

/-- A NAL unit of another type, or a second one, makes no difference. -/
theorem or_first?_singleton (kept : Option Bytes) (kind : UInt8) (nal : Bytes) :
    kept.or (first? kind [nal]) = if Nal.kind? nal = some kind ∧ kept = none then some nal else kept := by
  rw [first?, List.find?_singleton]
  cases kept with
  | none => simp
  | some first => simp

theorem keepsFirst_capture (p : Packetizer) (nal : Bytes) : KeepsFirst p [nal] (p.capture nal) := by
  suffices h : (p.sets.capture nal).sequence = p.sequenceSet.or (first? 7 [nal]) ∧
      (p.sets.capture nal).picture = p.pictureSet.or (first? 8 [nal]) from ⟨h.1, h.2⟩
  unfold ParameterSets.capture sets
  simp only [Bool.and_eq_true, decide_eq_true_eq, Option.isNone_iff_eq_none]
  split
  · rename_i hsequence
    have hother : ¬(Nal.kind? nal = some 8 ∧ p.pictureSet = none) := by
      rw [hsequence.1]
      exact fun h => absurd h.1 (by decide)
    exact ⟨((or_first?_singleton _ _ _).trans (if_pos hsequence)).symm,
      ((or_first?_singleton _ _ _).trans (if_neg hother)).symm⟩
  · rename_i hsequence
    have hsame : p.sequenceSet = p.sequenceSet.or (first? 7 [nal]) :=
      ((or_first?_singleton _ _ _).trans (if_neg hsequence)).symm
    split
    · rename_i hpicture
      exact ⟨hsame, ((or_first?_singleton _ _ _).trans (if_pos hpicture)).symm⟩
    · rename_i hpicture
      exact ⟨hsame, ((or_first?_singleton _ _ _).trans (if_neg hpicture)).symm⟩

theorem keepsFirst_foldl : ∀ (nals : List Bytes) (p : Packetizer), KeepsFirst p nals (nals.foldl capture p)
  | [], _ => ⟨Option.or_none.symm, Option.or_none.symm⟩
  | nal :: rest, p => (keepsFirst_capture p nal).trans (keepsFirst_foldl rest (p.capture nal))

/-- Taking packets keeps no parameter set and loses none. -/
theorem keepsFirst_pull (n : Nat) (p : Packetizer) (c : Cursor) : KeepsFirst p [] (p.pull n c).2.1 := by
  obtain ⟨⟨k, hk⟩, -⟩ := pull_emits n p c
  rw [hk]
  exact ⟨Option.or_none.symm, Option.or_none.symm⟩

/-- **Along any history** the first parameter sets are kept, whatever is taken of a unit. -/
theorem keepsFirst_serve : ∀ (calls : List (AccessUnit × Nat)) (p : Packetizer),
    KeepsFirst p (seen calls) (p.serve calls)
  | [], _ => ⟨Option.or_none.symm, Option.or_none.symm⟩
  | (u, taken) :: rest, p => by
    have hbegin : KeepsFirst p (AnnexB.nalUnits u.bytes) (p.begin u).2 := keepsFirst_foldl _ p
    have hpull := hbegin.trans (keepsFirst_pull taken (p.begin u).2 (p.begin u).1)
    rw [List.append_nil] at hpull
    exact hpull.trans (keepsFirst_serve rest _)

theorem isSome_first?_iff {kind : UInt8} {nals : List Bytes} :
    (first? kind nals).isSome ↔ ∃ nal ∈ nals, Nal.kind? nal = some kind := by
  rw [first?, List.find?_isSome]
  simp only [decide_eq_true_eq]

theorem parameterSets_isSome (p : Packetizer) :
    p.parameterSets.isSome ↔ p.sequenceSet.isSome ∧ p.pictureSet.isSome := by
  unfold parameterSets ParameterSets.text sets
  cases p.sequenceSet <;> cases p.pictureSet <;> simp

/-- The only comma of the text divides it into two parts, and these read as the parameter sets kept. -/
theorem parameterSets_reads {text : String} (h : p.parameterSets = some text) :
    ∃ x y s t, text.toList = x ++ ',' :: y ∧ ',' ∉ x ∧ ',' ∉ y ∧ p.sequenceSet = some s ∧ Base64.decode x = some s ∧
      p.pictureSet = some t ∧ Base64.decode y = some t := by
  have hcomma : ∀ bytes, ',' ∉ Base64.encode bytes := Base64.not_mem_encode rfl (by decide)
  unfold parameterSets ParameterSets.text sets at h
  split at h
  · rename_i s t hs ht
    obtain rfl := Option.some.inj h
    exact ⟨Base64.encode s, Base64.encode t, s, t, String.toList_ofList, hcomma s, hcomma t, hs,
      Base64.decode_encode s, ht, Base64.decode_encode t⟩
  · cases h

theorem profileLevelId_eq_none_iff (p : Packetizer) :
    p.profileLevelId = none ↔ ∀ s, p.sequenceSet = some s → s.length < 4 := by
  unfold profileLevelId ParameterSets.profileLevelId sets
  split
  · rename_i hs
    refine iff_of_false nofun fun h => ?_
    have := h _ hs
    simp only [List.length_cons] at this
    omega
  · rename_i hshort
    refine iff_of_true rfl fun s hs => ?_
    match s, hs with
    | a :: b :: c :: d :: rest, hs => exact absurd hs (hshort a b c d rest)
    | [], _ | [_], _ | [_, _], _ | [_, _, _], _ => simp

theorem profileLevelId_reads {text : String} (h : p.profileLevelId = some text) :
    ∃ s, p.sequenceSet = some s ∧ Bytes.ofHex? text = some ((s.drop 1).take 3) ∧
      ∀ c ∈ text.toList, c ∈ "0123456789abcdef".toList := by
  unfold profileLevelId ParameterSets.profileLevelId sets at h
  split at h
  · rename_i hs
    obtain rfl := Option.some.inj h
    exact ⟨_, hs, Bytes.ofHex_toHex _, fun c hc => Bytes.mem_toHex hc⟩
  · cases h

/-! ## What is advertised -/

theorem sets_of_create {payloadType : UInt8} {ssrc : UInt32} {mtu : Nat} {cipher : Cipher}
    (h : create payloadType ssrc mtu cipher = .ok p) : p.sequenceSet = none ∧ p.pictureSet = none := by
  unfold create at h
  split at h
  · split at h
    · cases h
    · split at h
      · cases h
      · cases h
        exact ⟨rfl, rfl⟩
  · cases h

/-- **The first parameter sets of the whole history are advertised.**  Begin any access units with a new packetizer,
take any number of packets of each, with a cipher that may do anything to payloads.  Both parameter sets are advertised
exactly if NAL units of both types have been among those of the units; then the text has one comma, and the parts before
and behind it are base64 that reads as the first NAL units of these types.  Profile and level are not there exactly if
there has been no sequence parameter set or the first one is shorter than four octets; else they are hexadecimal in
lower case that reads as the three octets behind its header. -/
theorem advertises_first {payloadType : UInt8} {ssrc : UInt32} {mtu : Nat} {cipher : Cipher}
    (h : create payloadType ssrc mtu cipher = .ok p) (start : Serial) (calls : List (AccessUnit × Nat)) :
    let nals := seen calls
    let q := (p.startAt start).serve calls
    (q.parameterSets.isSome ↔ (∃ nal ∈ nals, Nal.kind? nal = some 7) ∧ ∃ nal ∈ nals, Nal.kind? nal = some 8) ∧
    (∀ text, q.parameterSets = some text → ∃ x y s t, text.toList = x ++ ',' :: y ∧ ',' ∉ x ∧ ',' ∉ y ∧
      first? 7 nals = some s ∧ Base64.decode x = some s ∧ first? 8 nals = some t ∧ Base64.decode y = some t) ∧
    (q.profileLevelId = none ↔ ∀ s, first? 7 nals = some s → s.length < 4) ∧
    ∀ text, q.profileLevelId = some text → ∃ s, first? 7 nals = some s ∧
      Bytes.ofHex? text = some ((s.drop 1).take 3) ∧ ∀ c ∈ text.toList, c ∈ "0123456789abcdef".toList := by
  intro nals q
  obtain ⟨hs, ht⟩ := keepsFirst_serve calls (p.startAt start)
  obtain ⟨hnos, hnot⟩ := sets_of_create h
  have hsequence : q.sequenceSet = first? 7 nals := by
    rw [hs]
    exact hnos ▸ Option.none_or
  have hpicture : q.pictureSet = first? 8 nals := by
    rw [ht]
    exact hnot ▸ Option.none_or
  rw [parameterSets_isSome, profileLevelId_eq_none_iff, hsequence, hpicture, isSome_first?_iff, isSome_first?_iff]
  refine ⟨Iff.rfl, fun text htext => ?_, Iff.rfl, fun text htext => ?_⟩
  · obtain ⟨x, y, s, t, hparts, hx, hy, hs, hreads, ht, hreadt⟩ := parameterSets_reads htext
    exact ⟨x, y, s, t, hparts, hx, hy, hsequence ▸ hs, hreads, hpicture ▸ ht, hreadt⟩
  · obtain ⟨s, hs, hread, hlower⟩ := profileLevelId_reads htext
    exact ⟨s, hsequence ▸ hs, hread, hlower⟩

/-- The sets arrive in two units, and again, with no packet taken of the first unit. -/
theorem advertises_first_twice :
    let calls : List (AccessUnit × Nat) :=
      [(.assembled 0 [[0x68, 0xce, 0x38, 0x80], [0x41, 1]], 0), (.assembled 1 [[0x67, 0x42, 0, 0x1e], [0x68, 9]], 1),
        (.assembled 2 [[0x67, 1, 2, 3], [0x65, 0x88]], 9)]
    let q := (plain.startAt 7).serve calls
    create 96 1 1200 .identity = .ok plain ∧
      (first? 7 (seen calls) = some [0x67, 0x42, 0, 0x1e] ∧ first? 8 (seen calls) = some [0x68, 0xce, 0x38, 0x80]) ∧
      (∃ text x y, q.parameterSets = some text ∧ text.toList = x ++ ',' :: y ∧
        Base64.decode x = some [0x67, 0x42, 0, 0x1e] ∧ Base64.decode y = some [0x68, 0xce, 0x38, 0x80]) ∧
      ∃ text, q.profileLevelId = some text ∧ Bytes.ofHex? text = some [0x42, 0, 0x1e] := by
  intro calls q
  have hcreate : create 96 1 1200 .identity = .ok plain := rfl
  have hs : first? 7 (seen calls) = some [0x67, 0x42, 0, 0x1e] := by decide +kernel
  have ht : first? 8 (seen calls) = some [0x68, 0xce, 0x38, 0x80] := by decide +kernel
  obtain ⟨hpresent, htext, habsent, hlevel⟩ := advertises_first hcreate 7 calls
  obtain ⟨text, hsets⟩ := Option.isSome_iff_exists.1
    (hpresent.2 ⟨isSome_first?_iff.1 (hs ▸ rfl), isSome_first?_iff.1 (ht ▸ rfl)⟩)
  obtain ⟨x, y, s, t, hparts, -, -, hs', hreads, ht', hreadt⟩ := htext text hsets
  have hprofile : q.profileLevelId ≠ none := fun h => absurd (habsent.1 h _ hs) (by decide)
  obtain ⟨level, hlevel'⟩ := Option.ne_none_iff_exists'.1 hprofile
  obtain ⟨s', hs'', hread, -⟩ := hlevel level hlevel'
  obtain rfl := Option.some.inj (hs.symm.trans hs')
  obtain rfl := Option.some.inj (ht.symm.trans ht')
  obtain rfl := Option.some.inj (hs.symm.trans hs'')
  exact ⟨hcreate, ⟨hs, ht⟩, ⟨text, x, y, hsets, hparts, hreads, hreadt⟩, level, hlevel', hread⟩

end Packetizer
end VideoTransport
