import Mathlib.Data.List.TakeDrop
import VideoTransport.Json.Record
/-!
# Spelling — JSON texts that read as what was written

A written string literal reads back as the pieces that stand for its characters, and those join to the string again
(`Phrase.read_write`, `Phrase.text_spelled`); a written number reads back as its digits, which have its value
(`Literal.read_writeNat`, `Literal.value_spelled`).  From texts that spell values an object is put together that spells
the object (`Spells.object`), and a whole text that spells a value is a document of this value
(`Document.read_of_spells`).
-/
namespace VideoTransport

namespace Text

theorem hexValue_digit {n : Nat} (h : n < 16) : hexValue? (hexDigit n) = some n := hexValue_hexDigit ⟨n, h⟩

theorem hexValue_lt {c : Char} {n : Nat} (h : hexValue? c = some n) : n < 16 := by
  simp only [hexValue?, Char.isDigit, Bool.and_eq_true, decide_eq_true_eq, Char.le_def, UInt32.le_iff_toNat_le,
    ge_iff_le] at h
  change (if 48 ≤ c.toNat ∧ c.toNat ≤ 57 then _ else if 97 ≤ c.toNat ∧ c.toNat ≤ 102 then _ else
    if 65 ≤ c.toNat ∧ c.toNat ≤ 70 then _ else _) = _ at h
  split at h
  · obtain rfl := Option.some.inj h
    omega
  · split at h
    · obtain rfl := Option.some.inj h
      omega
    · split at h
      · obtain rfl := Option.some.inj h
        omega
      · cases h

end Text

namespace Json

/-! ## String literals -/

/-- The piece that a character is written as: a control without a letter of its own becomes a code unit. -/
def Piece.spelled (c : Char) : Piece :=
  if c.toNat < 32 ∧ c ∉ ['\x08', '\x0c', '\n', '\r', '\t'] then .unit c.toNat else .char c

namespace Phrase

def spelled (s : String) : Phrase := ⟨s.toList.map .spelled, none⟩

theorem readUnit_control {n : Nat} (h : n < 32) (rest : List Char) :
    readUnit ('0' :: '0' :: Text.hexDigit (n / 16) :: Text.hexDigit (n % 16) :: rest) = .ok (n, rest) := by
  have hzero : Text.hexValue? '0' = some 0 := by decide
  have hhigh : Text.hexValue? (Text.hexDigit (n / 16)) = some (n / 16) := Text.hexValue_digit (by omega)
  have hlow : Text.hexValue? (Text.hexDigit (n % 16)) = some (n % 16) := Text.hexValue_digit (by omega)
  have hvalue : ((0 * 16 + 0) * 16 + n / 16) * 16 + n % 16 = n := by omega
  simp only [readUnit, hzero, hhigh, hlow, hvalue]

/-- What is written for a character is read as one piece. -/
theorem readPieces_writeChar (fuel : Nat) (c : Char) (cs : List Char) :
    readPieces (fuel + 1) (writeChar c ++ cs) = push (.spelled c) (readPieces fuel cs) := by
  unfold writeChar Piece.spelled
  split
  · rename_i h
    subst h
    rfl
  split
  · rename_i h
    subst h
    rfl
  split
  · rename_i h
    subst h
    rfl
  split
  · rename_i h
    subst h
    rfl
  split
  · rename_i h
    subst h
    rfl
  split
  · rename_i h
    subst h
    rfl
  split
  · rename_i h
    subst h
    rfl
  rename_i hquote hslash hb hf hn hr ht
  have hletters : c ∉ ['\x08', '\x0c', '\n', '\r', '\t'] := by simp [hb, hf, hn, hr, ht]
  split
  · rename_i hcontrol
    rw [if_pos ⟨hcontrol, hletters⟩]
    simp [readPieces, readUnit_control hcontrol]
  · rename_i hcontrol
    rw [if_neg fun h => hcontrol h.1]
    simp [readPieces, hquote, hslash, hcontrol]

theorem readPieces_write (rest : List Char) : ∀ (s : List Char) (fuel : Nat), s.length < fuel →
    readPieces fuel (s.flatMap writeChar ++ '"' :: rest) = (⟨s.map .spelled, none⟩, rest)
  | _, 0, h => absurd h (Nat.not_lt_zero _)
  | [], fuel + 1, _ => by simp [readPieces]
  | c :: s, fuel + 1, h => by
    rw [List.flatMap_cons, List.append_assoc, readPieces_writeChar,
      readPieces_write rest s fuel (Nat.lt_of_succ_lt_succ h)]
    rfl

theorem length_writeChar_pos (c : Char) : 0 < (writeChar c).length := by
  unfold writeChar
  repeat' split
  all_goals exact Nat.zero_lt_succ _

theorem length_le_flatMap_writeChar : ∀ s : List Char, s.length ≤ (s.flatMap writeChar).length
  | [] => Nat.le_refl _
  | c :: s => by
    have := length_writeChar_pos c
    have := length_le_flatMap_writeChar s
    rw [List.flatMap_cons, List.length_append, List.length_cons]
    omega

/-- **A written string literal reads back**, once its opening quote has been taken. -/
theorem read_write (s : String) (rest : List Char) :
    read (s.toList.flatMap writeChar ++ '"' :: rest) = (spelled s, rest) := by
  refine readPieces_write rest s.toList _ ?_
  have := length_le_flatMap_writeChar s.toList
  rw [List.length_append]
  omega

theorem join_spelled : ∀ s : List Char, join none (s.map .spelled) = .ok s
  | [] => rfl
  | c :: s => by
    rw [List.map_cons, Piece.spelled]
    by_cases h : c.toNat < 32 ∧ c ∉ ['\x08', '\x0c', '\n', '\r', '\t']
    · have htrailing : isTrailing c.toNat = false := by
        simp only [isTrailing, Bool.and_eq_false_iff, decide_eq_false_iff_not]
        omega
      have hleading : isLeading c.toNat = false := by
        simp only [isLeading, Bool.and_eq_false_iff, decide_eq_false_iff_not]
        omega
      rw [if_pos h, join.eq_def]
      simp only [htrailing, hleading, join_spelled s, Char.ofNat_toNat]
      rfl
    · rw [if_neg h, join.eq_def]
      simp only [join_spelled s]
      rfl

/-- **The text of a written string literal is the string.** -/
theorem text_spelled (s : String) : (spelled s).text = .ok s := by
  rw [text, spelled, join_spelled]
  exact congrArg Except.ok String.ofList_toList

end Phrase

/-! ## Numbers -/

/-- What may stand behind a number: nothing that would go on with it. -/
def Delimited (rest : List Char) : Prop :=
  ∀ c ∈ rest.head?, c.isDigit = false ∧ c ≠ '.' ∧ c ≠ 'e' ∧ c ≠ 'E'

instance (rest : List Char) : Decidable (Delimited rest) := inferInstanceAs (Decidable (∀ c ∈ rest.head?, _))

namespace Literal

def spelled (n : Nat) : Literal := ⟨false, Nat.toDigits 10 n, [], none⟩

theorem span_digits {digits rest : List Char} (hd : ∀ c ∈ digits, c.isDigit = true)
    (hr : ∀ c ∈ rest.head?, c.isDigit = false) : (digits ++ rest).span Char.isDigit = (digits, rest) := by
  have hstop : rest.takeWhile Char.isDigit = [] ∧ rest.dropWhile Char.isDigit = rest := by
    cases rest with
    | nil => exact ⟨rfl, rfl⟩
    | cons c rest => simp [hr c rfl]
  rw [List.span_eq_takeWhile_dropWhile, List.takeWhile_append_of_pos hd, List.dropWhile_append_of_pos hd, hstop.1,
    hstop.2, List.append_nil]

/-- A positive number is not written with a leading zero. -/
theorem head_toDigits {n : Nat} (h : 0 < n) : (Nat.toDigits 10 n).head? ≠ some '0' := by
  induction n using Nat.strongRecOn with
  | ind n ih =>
    rw [Nat.toDigits_eq_if (by decide)]
    split
    · rename_i hsmall
      have hall : ∀ m : Fin 10, 0 < m.val → [m.val.digitChar].head? ≠ some '0' := by decide
      exact hall ⟨n, hsmall⟩ h
    · rw [List.head?_append]
      have := ih (n / 10) (by omega) (by omega)
      cases hd : (Nat.toDigits 10 (n / 10)).head? with
      | none => exact absurd (List.head?_eq_none_iff.1 hd) Nat.toDigits_ne_nil
      | some c => simpa [hd] using this

theorem toDigits_of_head {n : Nat} (h : (Nat.toDigits 10 n).head? = some '0') : Nat.toDigits 10 n = ['0'] := by
  rcases Nat.eq_zero_or_pos n with rfl | hpos
  · rfl
  · exact absurd h (head_toDigits hpos)

theorem readWhole_toDigits (n : Nat) {rest : List Char} (hr : Delimited rest) :
    readWhole (Nat.toDigits 10 n ++ rest) = .ok (Nat.toDigits 10 n, rest) := by
  have hspan : (Nat.toDigits 10 n ++ rest).span Char.isDigit = (Nat.toDigits 10 n, rest) :=
    span_digits (fun c hc => Nat.isDigit_of_mem_toDigits (by decide) (by decide) hc) fun c hc => (hr c hc).1
  unfold readWhole
  rw [hspan]
  split
  · rename_i he
    exact absurd (congrArg Prod.fst he) Nat.toDigits_ne_nil
  · rename_i he
    have hdigits := congrArg Prod.fst he
    rcases Nat.eq_zero_or_pos n with rfl | hpos
    · cases hdigits
    · exact absurd (congrArg List.head? hdigits) (head_toDigits hpos)
  · rename_i he
    rw [he]

/-- **A written number reads back.** -/
theorem read_writeNat (n : Nat) {rest : List Char} (hr : Delimited rest) :
    read (writeNat n ++ rest) = .ok (spelled n, rest) := by
  have hdigit : ∀ c ∈ (Nat.toDigits 10 n ++ rest).head?, c ≠ '-' := by
    intro c hc
    cases hd : Nat.toDigits 10 n with
    | nil => exact absurd hd Nat.toDigits_ne_nil
    | cons d ds =>
      rw [hd] at hc
      obtain rfl : d = c := Option.some.inj hc
      have : d.isDigit = true := Nat.isDigit_of_mem_toDigits (by decide) (by decide) (hd ▸ List.mem_cons_self)
      rintro rfl
      cases this
  have hfraction : readFraction rest = .ok ([], rest) := by
    cases rest with
    | nil => rfl
    | cons c rest =>
      unfold readFraction
      split
      · rename_i he
        cases he
        exact absurd rfl (hr _ rfl).2.1
      · rfl
  have hexponent : readExponent rest = .ok (none, rest) := by
    cases rest with
    | nil => rfl
    | cons c rest => simp [readExponent, (hr c rfl).2.2.1, (hr c rfl).2.2.2]
  unfold read writeNat
  split
  rename_i negative cs hsign
  split at hsign
  · rename_i tail he
    exact absurd rfl (hdigit '-' (by rw [he]; rfl))
  · cases hsign
    simp only [readWhole_toDigits n hr, hfraction, hexponent, Bind.bind, Except.bind]
    rfl

theorem naturalOf_toDigits (n : Nat) : Decimal.naturalOf (Nat.toDigits 10 n) = n :=
  (Nat.ofDigitChars_eq_foldl (b := 10)).symm.trans Nat.ofDigitChars_ten_toDigits

/-- **A number of at most 64 bits has the value that was written.** -/
theorem value_spelled {n : Nat} (h : n < UInt64.size) : (spelled n).value = .ok (.integer n) := by
  simp [value, spelled, naturalOf_toDigits, h]

end Literal

/-! ## Values -/

/-- A text that reads as a value, with as much fuel as it is long and whatever delimiter comes behind it. -/
structure Spells (text : List Char) (t : Tree) : Prop where
  ne_nil : text ≠ []
  reads : ∀ {fuel : Nat} {rest : List Char}, text.length ≤ fuel → Delimited rest →
    readTree fuel (text ++ rest) = (t, rest)

theorem spells_string (s : String) : Spells (Phrase.write s) (.string (.spelled s)) where
  ne_nil := List.cons_ne_nil _ _
  reads {fuel rest} hfuel _ := by
    obtain ⟨fuel, rfl⟩ : ∃ k, fuel = k + 1 := ⟨fuel - 1, by simp [Phrase.write] at hfuel; omega⟩
    have htext : Phrase.write s ++ rest = '"' :: (s.toList.flatMap Phrase.writeChar ++ '"' :: rest) := by
      simp [Phrase.write]
    have hread := Phrase.read_write s rest
    rw [htext, readTree]
    simp [skipBlanks, isBlank, hread]

theorem spells_writeBool (b : Bool) : Spells (writeBool b) (.bool b) where
  ne_nil := by cases b <;> exact List.cons_ne_nil _ _
  reads {fuel rest} hfuel _ := by
    obtain ⟨fuel, rfl⟩ : ∃ k, fuel = k + 1 := ⟨fuel - 1, by cases b <;> simp [writeBool] at hfuel <;> omega⟩
    cases b <;> simp [writeBool, readTree, skipBlanks, isBlank, readWord]

theorem ne_of_isDigit {d : Char} (h : d.isDigit = true) :
    d ≠ ' ' ∧ d ≠ '\n' ∧ d ≠ '\t' ∧ d ≠ '\r' ∧ d ≠ '"' ∧ d ≠ '[' ∧ d ≠ '\x7b' ∧ d ≠ 'n' ∧ d ≠ 't' ∧ d ≠ 'f' := by
  refine ⟨?_, ?_, ?_, ?_, ?_, ?_, ?_, ?_, ?_, ?_⟩ <;>
    · rintro rfl
      cases h

theorem spells_writeNat (n : Nat) : Spells (writeNat n) (.number (.spelled n)) where
  ne_nil := Nat.toDigits_ne_nil
  reads {fuel rest} hfuel hr := by
    have hread := Literal.read_writeNat n hr
    unfold writeNat at hfuel hread ⊢
    cases hd : Nat.toDigits 10 n with
    | nil => exact absurd hd Nat.toDigits_ne_nil
    | cons d ds =>
      have hdigit : d.isDigit = true := Nat.isDigit_of_mem_toDigits (by decide) (by decide) (hd ▸ List.mem_cons_self)
      obtain ⟨h1, h2, h3, h4, h5, h6, h7, h8, h9, h10⟩ := ne_of_isDigit hdigit
      rw [hd] at hfuel hread
      obtain ⟨fuel, rfl⟩ : ∃ k, fuel = k + 1 := ⟨fuel - 1, by simp at hfuel; omega⟩
      rw [List.cons_append] at hread ⊢
      rw [readTree]
      simp [skipBlanks, isBlank, h1, h2, h3, h4, h5, h6, h7, h8, h9, h10, hdigit, hread]

/-! ## Objects -/

/-- A member of an object with the text of its value. -/
structure Member where
  name : String
  text : List Char
  value : Tree

namespace Member

def write (m : Member) : List Char := writeMember m.name m.text

def entry (m : Member) : Phrase × Tree := (.spelled m.name, m.value)

end Member

theorem skipBlanks_cons {c : Char} (h : isBlank c = false) (cs : List Char) : skipBlanks (c :: cs) = c :: cs := by
  rw [skipBlanks, List.dropWhile_cons, h, if_neg Bool.false_ne_true]

theorem delimited_comma (rest : List Char) : Delimited (',' :: rest) := by
  rintro c ⟨⟩
  decide

theorem delimited_brace (rest : List Char) : Delimited ('\x7d' :: rest) := by
  rintro c ⟨⟩
  decide

/-- A member is read up to what stands behind it. -/
theorem readMembers_write {m : Member} (hm : Spells m.text m.value) {fuel : Nat} (hfuel : m.text.length ≤ fuel)
    {c : Char} {cs : List Char} (hblank : isBlank c = false) (hr : Delimited (c :: cs)) :
    readMembers (fuel + 1) (m.write ++ c :: cs) =
      if c = ',' then
        (m.entry :: (readMembers fuel cs).1, (readMembers fuel cs).2)
      else if c = '\x7d' then ([m.entry], none, cs)
      else ([m.entry], some .malformed, []) := by
  have htext : m.write ++ c :: cs =
      '"' :: (m.name.toList.flatMap Phrase.writeChar ++ '"' :: ':' :: (m.text ++ c :: cs)) := by
    simp [Member.write, writeMember, Phrase.write]
  have hkey := Phrase.read_write m.name (':' :: (m.text ++ c :: cs))
  have hvalue := hm.reads hfuel hr
  rw [htext, readMembers]
  simp only [skipBlanks_cons (c := '"') rfl, skipBlanks_cons (c := ':') rfl, skipBlanks_cons hblank, if_true, hkey,
    hvalue, Member.entry]

theorem Member.length_write (m : Member) : m.text.length < m.write.length := by
  simp only [write, writeMember, List.length_append, List.length_cons]
  omega

theorem readMembers_intercalate : ∀ {members : List Member} (fuel : Nat) (rest : List Char), members ≠ [] →
    (∀ m ∈ members, Spells m.text m.value) → (List.intercalate [','] (members.map Member.write)).length ≤ fuel →
    readMembers fuel (List.intercalate [','] (members.map Member.write) ++ '\x7d' :: rest) =
      (members.map Member.entry, none, rest)
  | [], _, _, hne, _, _ => absurd rfl hne
  | [m], fuel, rest, _, hall, hfuel => by
    rw [List.map_singleton, List.intercalate_singleton] at hfuel ⊢
    have hlen := m.length_write
    obtain ⟨fuel, rfl⟩ : ∃ k, fuel = k + 1 := ⟨fuel - 1, by omega⟩
    rw [readMembers_write (hall m List.mem_cons_self) (by omega) rfl (delimited_brace rest)]
    simp
  | m :: next :: more, fuel, rest, _, hall, hfuel => by
    rw [List.map_cons, List.map_cons, List.intercalate_cons_cons, ← List.map_cons] at hfuel ⊢
    simp only [List.length_append, List.length_singleton] at hfuel
    have hlen := m.length_write
    obtain ⟨fuel, rfl⟩ : ∃ k, fuel = k + 1 := ⟨fuel - 1, by omega⟩
    have ih := readMembers_intercalate fuel rest (List.cons_ne_nil next more)
      (fun n hn => hall n (List.mem_cons_of_mem m hn)) (by omega)
    rw [List.append_assoc, List.append_assoc, List.singleton_append,
      readMembers_write (hall m List.mem_cons_self) (by omega) rfl (delimited_comma _), ih]
    simp

/-- **Members that spell values make up an object** that spells these members. -/
theorem Spells.object {members : List Member} (h : ∀ m ∈ members, Spells m.text m.value) :
    Spells (writeObject (members.map Member.write)) (.object (members.map Member.entry) none) where
  ne_nil := List.cons_ne_nil _ _
  reads {fuel rest} hfuel _ := by
    simp only [writeObject, List.length_cons, List.length_append] at hfuel
    obtain ⟨fuel, rfl⟩ : ∃ k, fuel = k + 1 := ⟨fuel - 1, by omega⟩
    cases members with
    | nil => simp [writeObject, readTree, skipBlanks, isBlank]
    | cons m more =>
      have hread := readMembers_intercalate fuel rest (List.cons_ne_nil m more) h (by omega)
      obtain ⟨tail, hquote⟩ : ∃ tail, List.intercalate [','] ((m :: more).map Member.write) ++ '\x7d' :: rest =
          '"' :: tail := by
        cases more <;> exact ⟨_, rfl⟩
      have htext : writeObject ((m :: more).map Member.write) ++ rest = '\x7b' :: '"' :: tail := by
        rw [writeObject, List.cons_append, List.append_assoc, List.singleton_append, hquote]
      rw [hquote] at hread
      rw [htext, readTree]
      simp [skipBlanks_cons (c := '\x7b') rfl, skipBlanks_cons (c := '"') rfl, hread]

/-- **A whole text that spells a value** is the document of this value. -/
theorem Document.read_of_spells {text : List Char} {t : Tree} (h : Spells text t) :
    Document.read text = ⟨t, false⟩ := by
  have hread : readTree (2 * text.length + 2) (text ++ []) = (t, []) := h.reads (by omega) (by rintro c ⟨⟩)
  rw [List.append_nil] at hread
  unfold read
  simp only [hread]
  rfl

end Json
end VideoTransport
