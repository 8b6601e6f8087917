import Mathlib.Data.List.DropRight
import VideoTransport.Proofs.Quotes
/-!
# Wording — every JSON text of a value reads as it

Writing has one text for a value; JSON admits many.  The characters of a string may be written as they are, behind a
backslash, or as code units, of which some make up no character; numbers have fractions and exponents.  Around the
members of an object, their names and their values there may be blanks.  The grammar for scalars (`ScalarText`) and for
objects with values of any kind (`ObjectText`) says which texts these are, and reading takes each of them for what it
stands for (`ScalarText.spells`, `ObjectText.spells`, `Document.read_padded`).
-/
namespace VideoTransport
namespace Json

/-! ## The grammar -/

/-- A value without parts. -/
inductive Scalar where
  | null
  | bool (b : Bool)
  | number (l : Literal)
  | string (q : Quote)
  deriving DecidableEq

/-- The texts of an exponent: a mark of either case, a sign that is left out or a plus if it is not a minus, digits. -/
inductive ExponentText : Option (Bool × List Char) → List Char → Prop
  | none : ExponentText none []
  | some {mark : Char} {negative : Bool} {sign digits : List Char} (hmark : mark = 'e' ∨ mark = 'E')
      (hsign : sign ∈ if negative then [['-']] else [[], ['+']]) (hne : digits ≠ [])
      (hdigits : ∀ c ∈ digits, c.isDigit = true) : ExponentText (some (negative, digits)) (mark :: (sign ++ digits))

/-- The texts of a number.  A leading zero stands alone, and a point has digits behind it. -/
inductive NumberText (l : Literal) : List Char → Prop
  | intro {exponent : List Char} (hne : l.whole ≠ []) (hwhole : ∀ c ∈ l.whole, c.isDigit = true)
      (hzero : l.whole.head? = some '0' → l.whole = ['0']) (hfraction : ∀ c ∈ l.fraction, c.isDigit = true)
      (hexponent : ExponentText l.exponent exponent) :
      NumberText l ((if l.negative then ['-'] else []) ++
        (l.whole ++ ((if l.fraction = [] then [] else '.' :: l.fraction) ++ exponent)))

/-- Four hexadecimal digits that write a number. -/
def IsUnit (digits : List Char) (u : Nat) : Prop :=
  ∃ n₃ n₂ n₁ n₀, digits.map Text.hexValue? = [some n₃, some n₂, some n₁, some n₀] ∧
    n₃ * 4096 + n₂ * 256 + n₁ * 16 + n₀ = u

/-- What stands between quotes for a character, or for one code unit whether or not it makes up a character. -/
inductive Stroke : List Nat → List Char → Prop
  | glyph {c : Char} {text : List Char} (h : Glyph c text) : Stroke (codeUnits c) text
  | unit {digits : List Char} {u : Nat} (h : IsUnit digits u) : Stroke [u] ('\\' :: 'u' :: digits)

inductive QuoteText (q : Quote) : List Char → Prop
  | intro {units : List (List Nat)} {strokes : List (List Char)} (h : List.Forall₂ Stroke units strokes)
      (hunits : units.flatten = q.units) : QuoteText q ('"' :: (strokes.flatten ++ ['"']))

inductive ScalarText : Scalar → List Char → Prop
  | null : ScalarText .null ['n', 'u', 'l', 'l']
  | bool (b : Bool) : ScalarText (.bool b) (writeBool b)
  | number {l : Literal} {text : List Char} (h : NumberText l text) : ScalarText (.number l) text
  | string {q : Quote} {text : List Char} (h : QuoteText q text) : ScalarText (.string q) text

/-- Spaces, tabs and ends of lines. -/
def Blanks (pad : List Char) : Prop := ∀ c ∈ pad, c ∈ [' ', '\t', '\n', '\r']

section Objects

variable {α : Type} (IsText : α → List Char → Prop)

/-- The texts of a member: its name, a colon and its value, with any blanks around each of them. -/
inductive MemberText : Quote × α → List Char → Prop
  | intro {name : Quote} {a : α} {before key between ahead value after : List Char} (hbefore : Blanks before)
      (hkey : QuoteText name key) (hbetween : Blanks between) (hahead : Blanks ahead) (hvalue : IsText a value)
      (hafter : Blanks after) :
      MemberText (name, a) (before ++ (key ++ (between ++ ':' :: (ahead ++ (value ++ after)))))

/-- The texts of members with commas between them. -/
inductive MembersText : List (Quote × α) → List Char → Prop
  | one {m : Quote × α} {text : List Char} (h : MemberText IsText m text) : MembersText [m] text
  | more {m : Quote × α} {ms : List (Quote × α)} {text rest : List Char} (h : MemberText IsText m text)
      (hrest : MembersText ms rest) : MembersText (m :: ms) (text ++ ',' :: rest)

inductive ObjectText : List (Quote × α) → List Char → Prop
  | empty {pad : List Char} (h : Blanks pad) : ObjectText [] ('\x7b' :: (pad ++ ['\x7d']))
  | full {ms : List (Quote × α)} {text : List Char} (h : MembersText IsText ms text) :
      ObjectText ms ('\x7b' :: (text ++ ['\x7d']))

end Objects

/-- What a scalar is read as: a string and a number are kept as they are written. -/
inductive Scalar.IsReadAs : Scalar → Tree → Prop
  | null : IsReadAs .null .null
  | bool (b : Bool) : IsReadAs (.bool b) (.bool b)
  | number (l : Literal) : IsReadAs (.number l) (.number l)
  | string {q : Quote} {p : Phrase} (h : p.Says q) : IsReadAs (.string q) (.string p)

/-! ## Blanks -/

theorem Blanks.all {pad : List Char} (h : Blanks pad) : ∀ c ∈ pad, isBlank c = true := by
  intro c hc
  have hblank := h c hc
  simp only [List.mem_cons, List.not_mem_nil, or_false] at hblank
  rcases hblank with rfl | rfl | rfl | rfl <;> rfl

theorem Blanks.skip {pad : List Char} (h : Blanks pad) (rest : List Char) :
    skipBlanks (pad ++ rest) = skipBlanks rest := List.dropWhile_append_of_pos h.all

theorem Blanks.delimited {pad rest : List Char} (h : Blanks pad) (hr : Delimited rest) : Delimited (pad ++ rest) := by
  cases pad with
  | nil => exact hr
  | cons b pad =>
    rintro c ⟨⟩
    have hblank := h b List.mem_cons_self
    simp only [List.mem_cons, List.not_mem_nil, or_false] at hblank
    rcases hblank with rfl | rfl | rfl | rfl <;> decide

theorem readTree_skip (fuel : Nat) (cs : List Char) : readTree fuel (skipBlanks cs) = readTree fuel cs := by
  have htwice : skipBlanks (skipBlanks cs) = skipBlanks cs := List.dropWhile_idempotent _ cs
  cases fuel with
  | zero => rw [readTree, readTree]
  | succ fuel => rw [readTree, readTree, htwice]

/-- A value is read behind blanks, whatever delimiter comes behind it. -/
theorem Spells.reads_behind {text pad rest : List Char} {t : Tree} (h : Spells text t) (hp : Blanks pad) {fuel : Nat}
    (hfuel : text.length ≤ fuel) (hr : Delimited rest) : readTree fuel (pad ++ (text ++ rest)) = (t, rest) := by
  rw [← readTree_skip, hp.skip, readTree_skip]
  exact h.reads hfuel hr

/-! ## Numbers -/

/-- What stands behind the digits of a number is neither a digit nor a point. -/
theorem ExponentText.delimited {exponent : Option (Bool × List Char)} {text rest : List Char}
    (h : ExponentText exponent text) (hr : Delimited rest) :
    ∀ c ∈ (text ++ rest).head?, c.isDigit = false ∧ c ≠ '.' := by
  cases h with
  | none => exact fun c hc => ⟨(hr c hc).1, (hr c hc).2.1⟩
  | some hmark =>
    rintro c ⟨⟩
    rcases hmark with rfl | rfl <;> decide

namespace Literal

theorem readWhole_append {digits rest : List Char} (hne : digits ≠ []) (hd : ∀ c ∈ digits, c.isDigit = true)
    (hzero : digits.head? = some '0' → digits = ['0']) (hr : ∀ c ∈ rest.head?, c.isDigit = false) :
    readWhole (digits ++ rest) = .ok (digits, rest) := by
  unfold readWhole
  rw [span_digits hd hr]
  split
  · rename_i he
    exact absurd (congrArg Prod.fst he) hne
  · rename_i he
    have hdigits := congrArg Prod.fst he
    simp only at hdigits
    have := hzero (by rw [hdigits]; rfl)
    rw [hdigits] at this
    cases this
  · rename_i he
    rw [he]

theorem readFraction_append {digits rest : List Char} (hd : ∀ c ∈ digits, c.isDigit = true)
    (hr : ∀ c ∈ rest.head?, c.isDigit = false ∧ c ≠ '.') :
    readFraction ((if digits = [] then [] else '.' :: digits) ++ rest) = .ok (digits, rest) := by
  split
  · rename_i h
    subst h
    cases rest with
    | nil => rfl
    | cons c rest =>
      rw [List.nil_append]
      unfold readFraction
      split
      · rename_i he
        cases he
        exact absurd rfl (hr '.' rfl).2
      · rfl
  · rename_i h
    rw [List.cons_append, readFraction, span_digits hd fun c hc => (hr c hc).1]
    cases digits with
    | nil => exact absurd rfl h
    | cons d digits => rfl

theorem readSign_append {negative : Bool} {sign : List Char} {d : Char} {rest : List Char} (hd : d.isDigit = true)
    (hsign : sign ∈ if negative then [['-']] else [[], ['+']]) :
    readSign (sign ++ d :: rest) = (negative, d :: rest) := by
  cases negative with
  | true =>
    obtain rfl : sign = ['-'] := by simpa using hsign
    rfl
  | false =>
    obtain rfl | rfl : sign = [] ∨ sign = ['+'] := by simpa using hsign
    · rw [List.nil_append]
      unfold readSign
      split
      · rename_i he
        obtain rfl : d = '-' := (List.cons.inj he).1
        cases hd
      · rename_i he
        obtain rfl : d = '+' := (List.cons.inj he).1
        cases hd
      · rfl
    · rfl

theorem readExponent_append {exponent : Option (Bool × List Char)} {text rest : List Char}
    (h : ExponentText exponent text) (hr : Delimited rest) : readExponent (text ++ rest) = .ok (exponent, rest) := by
  cases h with
  | none =>
    cases rest with
    | nil => rfl
    | cons c rest => simp [readExponent, (hr c rfl).2.2.1, (hr c rfl).2.2.2]
  | @some mark negative sign digits hmark hsign hne hdigits =>
    have hspan := span_digits hdigits fun c hc => (hr c hc).1
    have hmark : (decide (mark = 'e') || decide (mark = 'E')) = true := by simpa using hmark
    cases digits with
    | nil => exact absurd rfl hne
    | cons d digits =>
      have hsignRead : readSign (sign ++ d :: (digits ++ rest)) = (negative, d :: (digits ++ rest)) :=
        readSign_append (hdigits d List.mem_cons_self) hsign
      rw [List.cons_append] at hspan
      rw [List.cons_append, List.append_assoc, List.cons_append, readExponent]
      simp only [hmark, if_true, hsignRead, hspan]

theorem read_signed {negative : Bool} {d : Char} (hd : d.isDigit = true) (body : List Char) :
    read ((if negative then ['-'] else []) ++ d :: body) = (do
      let (whole, cs) ← readWhole (d :: body)
      let (fraction, cs) ← readFraction cs
      let (exponent, cs) ← readExponent cs
      return (⟨negative, whole, fraction, exponent⟩, cs)) := by
  cases negative with
  | true => rfl
  | false =>
    have hminus : d ≠ '-' := by
      rintro rfl
      cases hd
    rw [if_neg Bool.false_ne_true, List.nil_append]
    unfold read
    split
    rename_i negative cs hsign
    split at hsign
    · rename_i tail he
      exact absurd (List.cons.inj he).1 hminus
    · cases hsign
      rfl

/-- **Every text of a number is read as it.** -/
theorem read_append {l : Literal} {text rest : List Char} (h : NumberText l text) (hr : Delimited rest) :
    read (text ++ rest) = .ok (l, rest) := by
  obtain ⟨hne, hwhole, hzero, hfraction, hexponent⟩ := h
  rename_i exponent
  have hbehind := hexponent.delimited hr
  have hpoint : ∀ c ∈ ((if l.fraction = [] then [] else '.' :: l.fraction) ++ (exponent ++ rest)).head?,
      c.isDigit = false := by
    split
    · exact fun c hc => (hbehind c hc).1
    · rintro c ⟨⟩
      rfl
  have hwholeRead := readWhole_append hne hwhole hzero hpoint
  have hfractionRead := readFraction_append hfraction hbehind
  have hexponentRead := readExponent_append hexponent hr
  obtain ⟨d, digits, hdigits⟩ := List.exists_cons_of_ne_nil hne
  have hd : d.isDigit = true := hwhole d (hdigits ▸ List.mem_cons_self)
  have htext : (if l.negative then ['-'] else []) ++ (l.whole ++ ((if l.fraction = [] then [] else '.' :: l.fraction) ++
      exponent)) ++ rest = (if l.negative then ['-'] else []) ++ d :: (digits ++
        ((if l.fraction = [] then [] else '.' :: l.fraction) ++ (exponent ++ rest))) := by
    simp only [hdigits, List.append_assoc, List.cons_append]
  rw [hdigits, List.cons_append] at hwholeRead
  rw [htext, read_signed hd]
  simp only [hwholeRead, hfractionRead, hexponentRead, Bind.bind, Except.bind, ← hdigits]
  rfl

end Literal

/-! ## Strings -/

theorem IsUnit.readUnit {digits : List Char} {u : Nat} (h : IsUnit digits u) (rest : List Char) :
    Phrase.readUnit (digits ++ rest) = .ok (u, rest) := by
  obtain ⟨n₃, n₂, n₁, n₀, hdigits, rfl⟩ := h
  obtain ⟨a, b, c, d, rfl⟩ : ∃ a b c d, digits = [a, b, c, d] :=
    List.length_eq_four.1 (by simpa using congrArg List.length hdigits)
  simp only [List.map_cons, List.map_nil, List.cons.injEq, and_true] at hdigits
  obtain ⟨ha, hb, hc, hd⟩ := hdigits
  simp only [List.cons_append, List.nil_append, Phrase.readUnit, ha, hb, hc, hd]
  congr 2
  omega

theorem IsUnit.readPieces {digits : List Char} {u : Nat} (h : IsUnit digits u) (fuel : Nat) (rest : List Char) :
    Phrase.readPieces (fuel + 1) ('\\' :: 'u' :: (digits ++ rest)) =
      Phrase.push (.unit u) (Phrase.readPieces fuel rest) := by
  rw [Phrase.readPieces]
  simp [h.readUnit rest]

/-- What stands for code units is read as a piece with these units. -/
theorem Stroke.readPieces {units : List Nat} {text : List Char} (h : Stroke units text) :
    text ≠ [] ∧ ∃ piece : Piece, piece.units = units ∧ ∀ (fuel : Nat) (rest : List Char),
      Phrase.readPieces (fuel + 1) (text ++ rest) = Phrase.push piece (Phrase.readPieces fuel rest) := by
  cases h with
  | unit h => exact ⟨List.cons_ne_nil _ _, .unit _, rfl, h.readPieces⟩
  | @glyph c _ h =>
    cases h with
    | plain hcontrol hquote hslash =>
      refine ⟨List.cons_ne_nil _ _, .char c, rfl, fun fuel rest => ?_⟩
      rw [List.singleton_append]
      simp [Phrase.readPieces, hquote, hslash, Nat.not_lt.2 hcontrol]
    | @escape letter h =>
      have hall : ∀ e ∈ escapes, e.1 ≠ 'u' ∧ Phrase.shortEscape? e.1 = some e.2 := by decide
      obtain ⟨hunit, hletter⟩ := hall _ h
      refine ⟨List.cons_ne_nil _ _, .char c, rfl, fun fuel rest => ?_⟩
      rw [List.cons_append, List.singleton_append, Phrase.readPieces]
      simp [hunit, hletter]
    | @unit digits n₃ n₂ n₁ n₀ hdigits h =>
      have hu : IsUnit digits c.toNat := ⟨n₃, n₂, n₁, n₀, hdigits, h⟩
      simp only [List.map_eq_cons_iff] at hdigits
      obtain ⟨_, _, rfl, h₃, _, _, rfl, h₂, _, _, rfl, h₁, _, _, rfl, h₀, -⟩ := hdigits
      have hlt : c.toNat < 0x10000 := by
        have := Text.hexValue_lt h₃
        have := Text.hexValue_lt h₂
        have := Text.hexValue_lt h₁
        have := Text.hexValue_lt h₀
        omega
      exact ⟨List.cons_ne_nil _ _, .unit c.toNat, (if_pos hlt).symm, hu.readPieces⟩

/-- **Every text of a string is read as a literal that says it.** -/
theorem QuoteText.read {q : Quote} {text : List Char} (h : QuoteText q text) :
    ∃ tail p, text = '"' :: tail ∧ p.Says q ∧ ∀ rest, Phrase.read (tail ++ rest) = (p, rest) := by
  obtain ⟨hstrokes, hunits⟩ := h
  rename_i units strokes
  have hread : ∃ pieces : List Piece, pieces.flatMap Piece.units = units.flatten ∧ ∀ fuel rest,
      strokes.flatten.length < fuel →
        Phrase.readPieces fuel (strokes.flatten ++ '"' :: rest) = (⟨pieces, none⟩, rest) := by
    clear hunits
    induction hstrokes with
    | nil =>
      refine ⟨[], rfl, fun fuel rest hfuel => ?_⟩
      obtain ⟨fuel, rfl⟩ : ∃ k, fuel = k + 1 := ⟨fuel - 1, by omega⟩
      simp [Phrase.readPieces]
    | @cons _ text _ strokes hstroke _ ih =>
      obtain ⟨hne, piece, hpiece, hread⟩ := hstroke.readPieces
      obtain ⟨pieces, hpieces, hmore⟩ := ih
      refine ⟨piece :: pieces, by rw [List.flatMap_cons, List.flatten_cons, hpiece, hpieces], fun fuel rest hfuel => ?_⟩
      have hlength := List.length_pos_of_ne_nil hne
      rw [List.flatten_cons, List.length_append] at hfuel
      obtain ⟨fuel, rfl⟩ : ∃ k, fuel = k + 1 := ⟨fuel - 1, by omega⟩
      rw [List.flatten_cons, List.append_assoc, hread, hmore fuel rest (by omega)]
      rfl
  obtain ⟨pieces, hpieces, hread⟩ := hread
  refine ⟨strokes.flatten ++ ['"'], ⟨pieces, none⟩, rfl, ⟨rfl, hpieces.trans hunits⟩, fun rest => ?_⟩
  rw [List.append_assoc, List.singleton_append, Phrase.read]
  exact hread _ rest (by rw [List.length_append]; omega)

/-! ## Scalars -/

theorem QuoteText.spells {q : Quote} {text : List Char} (h : QuoteText q text) :
    ∃ p, p.Says q ∧ Spells text (.string p) := by
  obtain ⟨tail, p, rfl, hp, hread⟩ := h.read
  refine ⟨p, hp, List.cons_ne_nil _ _, fun {fuel rest} hfuel _ => ?_⟩
  obtain ⟨fuel, rfl⟩ : ∃ k, fuel = k + 1 := ⟨fuel - 1, by simp at hfuel; omega⟩
  rw [List.cons_append, readTree]
  simp [skipBlanks_cons (c := '"') rfl, hread]

theorem NumberText.head {l : Literal} {text : List Char} (h : NumberText l text) :
    ∃ d tail, text = d :: tail ∧ (d = '-' ∨ d.isDigit = true) := by
  obtain ⟨hne, hwhole, -, -, -⟩ := h
  cases hl : l.negative with
  | true => exact ⟨'-', _, rfl, .inl rfl⟩
  | false =>
    cases hw : l.whole with
    | nil => exact absurd hw hne
    | cons d digits => exact ⟨d, _, rfl, .inr (hwhole d (hw ▸ List.mem_cons_self))⟩

theorem NumberText.spells {l : Literal} {text : List Char} (h : NumberText l text) : Spells text (.number l) := by
  have hreads {rest : List Char} (hr : Delimited rest) := Literal.read_append h hr
  obtain ⟨d, tail, rfl, hd⟩ := h.head
  refine ⟨List.cons_ne_nil _ _, fun {fuel rest} hfuel hr => ?_⟩
  have hread := hreads hr
  obtain ⟨fuel, rfl⟩ : ∃ k, fuel = k + 1 := ⟨fuel - 1, by simp at hfuel; omega⟩
  rw [List.cons_append] at hread ⊢
  rw [readTree]
  rcases hd with rfl | hdigit
  · simp [skipBlanks_cons (c := '-') rfl, hread]
  · obtain ⟨h1, h2, h3, h4, h5, h6, h7, h8, h9, h10⟩ := ne_of_isDigit hdigit
    simp [skipBlanks, isBlank, h1, h2, h3, h4, h5, h6, h7, h8, h9, h10, hdigit, hread]

theorem spells_null : Spells ['n', 'u', 'l', 'l'] .null where
  ne_nil := List.cons_ne_nil _ _
  reads {fuel rest} hfuel _ := by
    obtain ⟨fuel, rfl⟩ : ∃ k, fuel = k + 1 := ⟨fuel - 1, by simp at hfuel; omega⟩
    simp [readTree, skipBlanks, isBlank, readWord]

/-- **Every text of a scalar is read as it.** -/
theorem ScalarText.spells {s : Scalar} {text : List Char} (h : ScalarText s text) :
    ∃ t, s.IsReadAs t ∧ Spells text t := by
  cases h with
  | null => exact ⟨.null, .null, spells_null⟩
  | bool b => exact ⟨.bool b, .bool b, spells_writeBool b⟩
  | number h => exact ⟨.number _, .number _, h.spells⟩
  | string h =>
    obtain ⟨p, hp, hspells⟩ := h.spells
    exact ⟨.string p, .string hp, hspells⟩

/-! ## Objects -/

/-- What a member is read as, when its value is read as `IsReadAs` says. -/
structure MemberIsReadAs {α : Type} (IsReadAs : α → Tree → Prop) (m : Quote × α) (entry : Phrase × Tree) : Prop where
  name : entry.1.Says m.1
  value : IsReadAs m.2 entry.2

theorem readMembers_skip (fuel : Nat) (cs : List Char) : readMembers fuel (skipBlanks cs) = readMembers fuel cs := by
  have htwice : skipBlanks (skipBlanks cs) = skipBlanks cs := List.dropWhile_idempotent _ cs
  cases fuel with
  | zero => rw [readMembers, readMembers]
  | succ fuel => rw [readMembers, readMembers, htwice]

section Objects

variable {α : Type} {IsText : α → List Char → Prop} {IsReadAs : α → Tree → Prop}

theorem MemberText.head {m : Quote × α} {text : List Char} (h : MemberText IsText m text) (rest : List Char) :
    ∃ tail, skipBlanks (text ++ rest) = '"' :: tail := by
  obtain ⟨hbefore, hkey, -, -, -, -⟩ := h
  obtain ⟨tail, p, rfl, -, -⟩ := hkey.read
  rw [List.append_assoc, hbefore.skip]
  exact ⟨_, rfl⟩

/-- A member is read up to the comma or the brace behind it. -/
theorem MemberText.read (hspells : ∀ a text, IsText a text → ∃ t, IsReadAs a t ∧ Spells text t) {m : Quote × α}
    {text : List Char} (h : MemberText IsText m text) :
    ∃ entry, MemberIsReadAs IsReadAs m entry ∧ ∀ {fuel : Nat} {c : Char} {cs : List Char}, text.length ≤ fuel + 1 →
      isBlank c = false → Delimited (c :: cs) → readMembers (fuel + 1) (text ++ c :: cs) =
        if c = ',' then
          (entry :: (readMembers fuel cs).1, (readMembers fuel cs).2)
        else if c = '\x7d' then ([entry], none, cs)
        else ([entry], some .malformed, []) := by
  obtain ⟨hbefore, hkey, hbetween, hahead, hvalue, hafter⟩ := h
  rename_i name a before key between ahead value after
  obtain ⟨tail, p, rfl, hp, hread⟩ := hkey.read
  obtain ⟨t, ht, htree⟩ := hspells a value hvalue
  refine ⟨(p, t), ⟨hp, ht⟩, fun {fuel c cs} hfuel hblank hr => ?_⟩
  have htext : before ++ ('"' :: tail ++ (between ++ ':' :: (ahead ++ (value ++ after)))) ++ c :: cs =
      before ++ '"' :: (tail ++ (between ++ ':' :: (ahead ++ (value ++ (after ++ c :: cs))))) := by simp
  have hcolon : skipBlanks (between ++ ':' :: (ahead ++ (value ++ (after ++ c :: cs)))) =
      ':' :: (ahead ++ (value ++ (after ++ c :: cs))) := by
    rw [hbetween.skip, skipBlanks_cons rfl]
  have hquote : skipBlanks (before ++ '"' :: (tail ++ (between ++ ':' :: (ahead ++ (value ++ (after ++ c :: cs)))))) =
      '"' :: (tail ++ (between ++ ':' :: (ahead ++ (value ++ (after ++ c :: cs))))) := by
    rw [hbefore.skip, skipBlanks_cons rfl]
  have hbehind : skipBlanks (after ++ c :: cs) = c :: cs := by rw [hafter.skip, skipBlanks_cons hblank]
  have hvalueRead : readTree fuel (ahead ++ (value ++ (after ++ c :: cs))) = (t, after ++ c :: cs) :=
    htree.reads_behind hahead (by simp only [List.length_append, List.length_cons] at hfuel; omega)
      (hafter.delimited hr)
  rw [htext, readMembers]
  simp only [hquote, if_true, hread, hcolon, hvalueRead, hbehind]

theorem MembersText.read (hspells : ∀ a text, IsText a text → ∃ t, IsReadAs a t ∧ Spells text t)
    {ms : List (Quote × α)} {text : List Char} (h : MembersText IsText ms text) :
    ∃ entries, List.Forall₂ (MemberIsReadAs IsReadAs) ms entries ∧ ∀ (fuel : Nat) (rest : List Char),
      text.length < fuel → readMembers fuel (text ++ '\x7d' :: rest) = (entries, none, rest) := by
  induction h with
  | one h =>
    obtain ⟨entry, hentry, hread⟩ := h.read hspells
    refine ⟨[entry], .cons hentry .nil, fun fuel rest hfuel => ?_⟩
    obtain ⟨fuel, rfl⟩ : ∃ k, fuel = k + 1 := ⟨fuel - 1, by omega⟩
    rw [hread (by omega) rfl (delimited_brace rest)]
    simp
  | @more m ms text more h _ ih =>
    -- one member takes one step of the fuel, and its text at least one character
    obtain ⟨entry, hentry, hread⟩ := h.read hspells
    obtain ⟨entries, hentries, hmore⟩ := ih
    refine ⟨entry :: entries, .cons hentry hentries, fun fuel rest hfuel => ?_⟩
    rw [List.length_append, List.length_cons] at hfuel
    obtain ⟨fuel, rfl⟩ : ∃ k, fuel = k + 1 := ⟨fuel - 1, by omega⟩
    rw [List.append_assoc, List.cons_append, hread (by omega) rfl (delimited_comma _), if_pos rfl,
      hmore fuel rest (by omega)]

theorem MembersText.head {ms : List (Quote × α)} {text : List Char} (h : MembersText IsText ms text)
    (rest : List Char) : ∃ tail, skipBlanks (text ++ rest) = '"' :: tail := by
  cases h with
  | one h => exact h.head rest
  | more h _ =>
    rw [List.append_assoc]
    exact h.head _

/-- **Every text of an object is read as its members**, in the order of the text. -/
theorem ObjectText.spells (hspells : ∀ a text, IsText a text → ∃ t, IsReadAs a t ∧ Spells text t)
    {ms : List (Quote × α)} {text : List Char} (h : ObjectText IsText ms text) :
    ∃ entries, List.Forall₂ (MemberIsReadAs IsReadAs) ms entries ∧ Spells text (.object entries none) := by
  cases h with
  | @empty pad h =>
    refine ⟨[], .nil, List.cons_ne_nil _ _, fun {fuel rest} hfuel _ => ?_⟩
    obtain ⟨fuel, rfl⟩ : ∃ k, fuel = k + 1 := ⟨fuel - 1, by simp at hfuel; omega⟩
    have hpad : skipBlanks (pad ++ '\x7d' :: rest) = '\x7d' :: rest := by rw [h.skip, skipBlanks_cons rfl]
    rw [List.cons_append, List.append_assoc, List.singleton_append, readTree]
    simp [skipBlanks_cons (c := '\x7b') rfl, hpad]
  | @full _ text h =>
    obtain ⟨entries, hentries, hread⟩ := h.read hspells
    refine ⟨entries, hentries, List.cons_ne_nil _ _, fun {fuel rest} hfuel _ => ?_⟩
    rw [List.length_cons, List.length_append, List.length_singleton] at hfuel
    obtain ⟨fuel, rfl⟩ : ∃ k, fuel = k + 1 := ⟨fuel - 1, by omega⟩
    have hmembers := hread fuel rest (by omega)
    obtain ⟨tail, hquote⟩ := h.head ('\x7d' :: rest)
    rw [← readMembers_skip, hquote] at hmembers
    rw [List.cons_append, List.append_assoc, List.singleton_append, readTree]
    simp [skipBlanks_cons (c := '\x7b') rfl, hquote, hmembers]

end Objects

/-- A text with blanks around it is the document of what it spells. -/
theorem Document.read_padded {before text after : List Char} {t : Tree} (h : Spells text t) (hbefore : Blanks before)
    (hafter : Blanks after) : Document.read (before ++ (text ++ after)) = ⟨t, false⟩ := by
  have hnil : Delimited [] := by rintro c ⟨⟩
  have hdelimited : Delimited after := by simpa using hafter.delimited hnil
  have hread : readTree (2 * (before ++ (text ++ after)).length + 2) (before ++ (text ++ after)) = (t, after) :=
    h.reads_behind hbefore (by simp only [List.length_append]; omega) hdelimited
  have hempty : skipBlanks after = [] := by
    rw [← List.append_nil after, hafter.skip]
    rfl
  unfold read
  simp only [hread, hempty]
  rfl

/-! ## Writing -/

theorem quoteText_write (s : String) : QuoteText s (Phrase.write s) := by
  have hstrokes : List.Forall₂ Stroke (s.toList.map codeUnits) (s.toList.map Phrase.writeChar) :=
    List.forall₂_map_left_iff.2 <| List.forall₂_map_right_iff.2 <| List.forall₂_same.2 fun c _ =>
      .glyph (glyph_writeChar c)
  exact .intro hstrokes List.flatMap_def.symm

theorem numberText_writeNat (n : Nat) : NumberText (.spelled n) (writeNat n) := by
  have htext := NumberText.intro (l := .spelled n) Nat.toDigits_ne_nil
    (fun c hc => Nat.isDigit_of_mem_toDigits (by decide) (by decide) hc) Literal.toDigits_of_head
    (fun _ h => absurd h List.not_mem_nil) ExponentText.none
  simpa [Literal.spelled, writeNat] using htext

section Writing

variable {α : Type} {IsText : α → List Char → Prop}

theorem memberText_writeMember (name : String) {a : α} {text : List Char} (h : IsText a text) :
    MemberText IsText (↑name, a) (writeMember name text) := by
  have hblanks : Blanks [] := fun _ h => absurd h List.not_mem_nil
  have hmember := MemberText.intro hblanks (quoteText_write name) hblanks hblanks h hblanks
  simpa [writeMember] using hmember

/-- What is written for members whose values are written as their texts is a text of the object. -/
theorem objectText_writeObject (members : List (String × α × List Char)) (h : ∀ m ∈ members, IsText m.2.1 m.2.2) :
    ObjectText IsText (members.map fun m => (m.1, m.2.1))
      (writeObject (members.map fun m => writeMember m.1 m.2.2)) := by
  have hmembers : ∀ {members : List (String × α × List Char)}, members ≠ [] → (∀ m ∈ members, IsText m.2.1 m.2.2) →
      MembersText IsText (members.map fun m => (m.1, m.2.1))
        (List.intercalate [','] (members.map fun m => writeMember m.1 m.2.2)) := by
    intro members hne h
    induction members with
    | nil => exact absurd rfl hne
    | cons m members ih =>
      have hmember := memberText_writeMember m.1 (h m List.mem_cons_self)
      cases members with
      | nil => exact .one (by simpa using hmember)
      | cons next more =>
        have hmore := ih (List.cons_ne_nil next more) fun x hx => h x (List.mem_cons_of_mem m hx)
        simpa [List.intercalate_cons_cons] using MembersText.more hmember hmore
  cases members with
  | nil => exact .empty fun _ h => absurd h List.not_mem_nil
  | cons m more => exact .full (hmembers (List.cons_ne_nil m more) h)

end Writing

end Json
end VideoTransport
