import VideoTransport.Proofs.Rendering
/-!
# Quotes — what stands between quotes, and when it is a text

A string literal stands for sixteen-bit code units (`Quote`).  Those of a text are the code units of its characters, one
or two for each; but a unit may also be written in hexadecimal, and so half of a character can stand there alone.  Such
a literal is JSON and has no text.  Joining the pieces of a literal yields a text exactly when its code units are those
of one (`Phrase.Says.text_eq_ok_iff`).
-/
namespace VideoTransport
namespace Json

/-! ## Code units -/

/-- The code units of a character: its number, or the two halves of a number beyond sixteen bits. -/
def codeUnits (c : Char) : List Nat :=
  if c.toNat < 0x10000 then [c.toNat]
  else [0xD800 + (c.toNat - 0x10000) / 0x400, 0xDC00 + (c.toNat - 0x10000) % 0x400]

/-- A character is one unit that is no half, or a leading half and a trailing one. -/
theorem codeUnits_cases (c : Char) :
    (∃ u, codeUnits c = [u] ∧ u < 0x10000 ∧ Phrase.isTrailing u = false ∧ Phrase.isLeading u = false ∧
      Char.ofNat u = c) ∨
    ∃ u v, codeUnits c = [u, v] ∧ Phrase.isTrailing u = false ∧ Phrase.isLeading u = true ∧
      Phrase.isTrailing v = true ∧ Char.ofNat ((u - 0xD800) * 1024 + (v - 0xDC00) + 0x10000) = c := by
  have hvalid : c.toNat < 0xD800 ∨ 0xDFFF < c.toNat ∧ c.toNat < 0x110000 := c.valid
  simp only [Phrase.isTrailing, Phrase.isLeading, Bool.and_eq_false_iff, Bool.and_eq_true, decide_eq_false_iff_not,
    decide_eq_true_eq]
  unfold codeUnits
  split
  · exact .inl ⟨c.toNat, rfl, ‹_›, by omega, by omega, Char.ofNat_toNat c⟩
  · refine .inr ⟨_, _, rfl, by omega, by omega, by omega, ?_⟩
    rw [show (0xD800 + (c.toNat - 0x10000) / 0x400 - 0xD800) * 1024 +
      (0xDC00 + (c.toNat - 0x10000) % 0x400 - 0xDC00) + 0x10000 = c.toNat by omega]
    exact Char.ofNat_toNat c

theorem codeUnits_lt (c : Char) : ∀ u ∈ codeUnits c, u < 0x10000 := by
  have hvalid : c.toNat < 0xD800 ∨ 0xDFFF < c.toNat ∧ c.toNat < 0x110000 := c.valid
  unfold codeUnits
  split
  · simpa
  · simp only [List.forall_mem_cons, List.not_mem_nil, false_imp_iff, implies_true, and_true]
    omega

theorem toNat_charOfNat {n : Nat} (h : n.isValidChar) : (Char.ofNat n).toNat = n := by
  rw [Char.ofNat, dif_pos h]
  rfl

/-- A number of sixteen bits that is no half is the code unit of its character. -/
theorem codeUnits_ofNat {u : Nat} (hlt : u < 0x10000) (htrailing : Phrase.isTrailing u = false)
    (hleading : Phrase.isLeading u = false) : codeUnits (Char.ofNat u) = [u] := by
  simp only [Phrase.isTrailing, Phrase.isLeading, Bool.and_eq_false_iff, decide_eq_false_iff_not] at htrailing hleading
  have hvalid : u.isValidChar := by
    unfold Nat.isValidChar
    omega
  rw [codeUnits, toNat_charOfNat hvalid, if_pos hlt]

theorem codeUnits_pair {u v : Nat} (hu : Phrase.isLeading u = true) (hv : Phrase.isTrailing v = true) :
    codeUnits (Char.ofNat ((u - 0xD800) * 1024 + (v - 0xDC00) + 0x10000)) = [u, v] := by
  simp only [Phrase.isTrailing, Phrase.isLeading, Bool.and_eq_true, decide_eq_true_eq] at hu hv
  have hvalid : ((u - 0xD800) * 1024 + (v - 0xDC00) + 0x10000).isValidChar := by
    unfold Nat.isValidChar
    omega
  rw [codeUnits, toNat_charOfNat hvalid, if_neg (by omega)]
  simp only [List.cons.injEq, and_true]
  omega

theorem codeUnits_append_eq_iff {c : Char} {us : List Nat} {cs : List Char} :
    codeUnits c ++ us = cs.flatMap codeUnits ↔ ∃ cs', cs = c :: cs' ∧ us = cs'.flatMap codeUnits := by
  constructor
  · intro h
    cases cs with
    | nil => rcases codeUnits_cases c with ⟨u, hc, -⟩ | ⟨u, v, hc, -⟩ <;> simp [hc] at h
    | cons d cs =>
      rw [List.flatMap_cons] at h
      -- whether it is a leading half tells the first unit of a pair from a unit that stands for itself
      rcases codeUnits_cases c with ⟨u, hc, -, -, hu, rfl⟩ | ⟨u, v, hc, -, hu, -, rfl⟩ <;>
        rcases codeUnits_cases d with ⟨u', hd, -, -, hu', rfl⟩ | ⟨u', v', hd, -, hu', -, rfl⟩ <;>
        simp only [hc, hd, List.cons_append, List.nil_append, List.cons.injEq] at h
      · obtain ⟨rfl, h⟩ := h
        exact ⟨cs, rfl, h⟩
      · rw [h.1, hu'] at hu
        cases hu
      · rw [h.1, hu'] at hu
        cases hu
      · obtain ⟨rfl, rfl, h⟩ := h
        exact ⟨cs, rfl, h⟩
  · rintro ⟨cs', rfl, rfl⟩
    rw [List.flatMap_cons]

/-- A trailing half stands behind every leading one, and nowhere else. -/
theorem isTrailing_of_codeUnits {c : Char} {u : Nat} {us us' : List Nat} (h : codeUnits c ++ us = u :: us') :
    Phrase.isTrailing u = false ∧
      (Phrase.isLeading u = true → ∃ v us'', us' = v :: us'' ∧ Phrase.isTrailing v = true) := by
  rcases codeUnits_cases c with ⟨u', hc, -, htrailing, hleading, -⟩ | ⟨u', v, hc, htrailing, -, hv, -⟩ <;>
    simp only [hc, List.cons_append, List.nil_append, List.cons.injEq] at h <;> obtain ⟨rfl, h⟩ := h
  · refine ⟨htrailing, fun hu => ?_⟩
    rw [hleading] at hu
    cases hu
  · exact ⟨htrailing, fun _ => ⟨v, us, h.symm, hv⟩⟩

theorem isTrailing_of_flatMap {u : Nat} {us : List Nat} {cs : List Char} (h : u :: us = cs.flatMap codeUnits) :
    Phrase.isTrailing u = false ∧
      (Phrase.isLeading u = true → ∃ v us', us = v :: us' ∧ Phrase.isTrailing v = true) := by
  cases cs with
  | nil => cases h
  | cons c cs => exact isTrailing_of_codeUnits h.symm

/-! ## Quotes -/

/-- What a string literal stands for. -/
@[ext] structure Quote where
  units : List Nat
  fits : ∀ u ∈ units, u < 0x10000
  deriving DecidableEq

namespace Quote

def ofString (s : String) : Quote where
  units := s.toList.flatMap codeUnits
  fits := by
    intro u hu
    obtain ⟨c, -, hc⟩ := List.mem_flatMap.1 hu
    exact codeUnits_lt c u hc

instance : Coe String Quote := ⟨ofString⟩

/-- No half of a character stands in it alone. -/
def IsText (q : Quote) : Prop := ∃ s : String, q = s

@[simp] theorem isText_ofString (s : String) : (ofString s).IsText := ⟨s, rfl⟩

end Quote

/-- The code units that a piece of a literal stands for. -/
def Piece.units : Piece → List Nat
  | .char c => codeUnits c
  | .unit u => [u]

/-- A literal that is whole, and what it stands for. -/
structure Phrase.Says (p : Phrase) (q : Quote) : Prop where
  stop : p.stop = none
  units : p.pieces.flatMap Piece.units = q.units

/-! ## Joining -/

theorem cons_map_eq_ok_iff {ε α : Type} {a : α} {x : Except ε (List α)} {as : List α} :
    (a :: ·) <$> x = .ok as ↔ ∃ as', as = a :: as' ∧ x = .ok as' := by
  cases x with
  | error e =>
    constructor
    · rintro ⟨⟩
    · rintro ⟨_, _, ⟨⟩⟩
  | ok out =>
    constructor
    · rintro ⟨⟩
      exact ⟨out, rfl, rfl⟩
    · rintro ⟨_, rfl, ⟨⟩⟩
      rfl

namespace Phrase

/-- **Joining yields the characters whose code units stand in the pieces**, and nothing if there are none. -/
theorem join_eq_ok_iff {pieces : List Piece} {cs : List Char} (hfits : ∀ u ∈ pieces.flatMap Piece.units, u < 0x10000) :
    join none pieces = .ok cs ↔ pieces.flatMap Piece.units = cs.flatMap codeUnits := by
  fun_induction join none pieces generalizing cs with
  | case1 =>
    cases cs with
    | nil => exact iff_of_true rfl rfl
    | cons c cs =>
      refine iff_of_false nofun fun h => ?_
      rcases codeUnits_cases c with ⟨u, hc, -⟩ | ⟨u, v, hc, -⟩ <;> simp [hc] at h
  | case2 s h => cases h
  | case3 c rest ih =>
    rw [List.flatMap_cons, List.forall_mem_append] at hfits
    rw [List.flatMap_cons, Piece.units, codeUnits_append_eq_iff, cons_map_eq_ok_iff]
    simp only [ih hfits.2]
  | case4 u rest htrailing =>
    refine iff_of_false nofun fun h => ?_
    exact absurd htrailing (Bool.eq_false_iff.1 (isTrailing_of_flatMap h).1)
  | case5 u htrailing hleading v rest hv ih =>
    rw [List.flatMap_cons, List.flatMap_cons, List.forall_mem_append, List.forall_mem_append] at hfits
    have hunits : (Piece.unit u :: .unit v :: rest).flatMap Piece.units =
        codeUnits (Char.ofNat ((u - 0xD800) * 1024 + (v - 0xDC00) + 0x10000)) ++ rest.flatMap Piece.units := by
      rw [codeUnits_pair hleading hv]
      rfl
    rw [hunits, codeUnits_append_eq_iff, cons_map_eq_ok_iff]
    simp only [ih hfits.2.2]
  | case6 u htrailing hleading v rest hv =>
    refine iff_of_false nofun fun h => ?_
    obtain ⟨v', us, hus, hv'⟩ := (isTrailing_of_flatMap h).2 hleading
    exact hv ((List.cons.inj hus).1 ▸ hv')
  | case7 u htrailing hleading c rest =>
    refine iff_of_false nofun fun h => ?_
    obtain ⟨v, us, hus, hv⟩ := (isTrailing_of_flatMap h).2 hleading
    exact absurd hv (Bool.eq_false_iff.1 (isTrailing_of_codeUnits hus).1)
  | case8 u htrailing hleading =>
    refine iff_of_false nofun fun h => ?_
    obtain ⟨v, us, hus, -⟩ := (isTrailing_of_flatMap h).2 hleading
    cases hus
  | case9 u rest htrailing hleading ih =>
    rw [List.flatMap_cons, List.forall_mem_append] at hfits
    have hunits : (Piece.unit u :: rest).flatMap Piece.units =
        codeUnits (Char.ofNat u) ++ rest.flatMap Piece.units := by
      rw [codeUnits_ofNat (hfits.1 u List.mem_cons_self) (Bool.eq_false_iff.2 htrailing) (Bool.eq_false_iff.2 hleading)]
      rfl
    rw [hunits, codeUnits_append_eq_iff, cons_map_eq_ok_iff]
    simp only [ih hfits.2]

/-- A whole literal without a text has a character where the grammar of texts allows none like it. -/
theorem eq_malformed_of_join {pieces : List Piece} {stop : Stop} (h : join none pieces = .error stop) :
    stop = .malformed := by
  have hcons {c : Char} {x : Except Stop (List Char)} (hx : (c :: ·) <$> x = .error stop) : x = .error stop := by
    cases x with
    | error e => exact congrArg Except.error (Except.error.inj hx)
    | ok out => cases hx
  fun_induction join none pieces with
  | case1 => cases h
  | case2 s hs => cases hs
  | case3 c rest ih => exact ih (hcons h)
  | case5 u htrailing hleading v rest hv ih => exact ih (hcons h)
  | case9 u rest htrailing hleading ih => exact ih (hcons h)
  | _ => exact (Except.error.inj h).symm

variable {p : Phrase} {q : Quote}

/-- **A literal has a text exactly when its code units are those of one.** -/
theorem Says.text_eq_ok_iff (h : p.Says q) {s : String} : p.text = .ok s ↔ q = s := by
  have hjoin : join none p.pieces = .ok s.toList ↔ p.pieces.flatMap Piece.units = s.toList.flatMap codeUnits :=
    join_eq_ok_iff (h.units ▸ q.fits)
  have htext : p.text = .ok s ↔ join none p.pieces = .ok s.toList := by
    rw [Phrase.text, h.stop]
    cases join none p.pieces with
    | error stop => exact iff_of_false (by rintro ⟨⟩) (by rintro ⟨⟩)
    | ok cs =>
      constructor
      · intro hs
        rw [← Except.ok.inj hs, String.toList_ofList]
      · intro hs
        rw [Except.ok.inj hs]
        exact congrArg Except.ok String.ofList_toList
  rw [htext, hjoin, h.units, Quote.ext_iff]
  rfl

theorem Says.text {s : String} (h : p.Says s) : p.text = .ok s := h.text_eq_ok_iff.2 rfl

theorem Says.text_of_not_isText (h : p.Says q) (hq : ¬q.IsText) : p.text = .error .malformed := by
  cases hjoin : join none p.pieces with
  | error stop =>
    rw [Phrase.text, h.stop, hjoin, eq_malformed_of_join hjoin]
    rfl
  | ok cs =>
    refine absurd ⟨String.ofList cs, h.text_eq_ok_iff.1 ?_⟩ hq
    rw [Phrase.text, h.stop, hjoin]
    rfl

end Phrase

theorem Quote.ofString_injective : Function.Injective Quote.ofString := by
  intro s t h
  -- the literal that holds the characters as they are says both
  have hs : Phrase.Says ⟨s.toList.map .char, none⟩ s := ⟨rfl, by rw [List.flatMap_map]; rfl⟩
  exact Except.ok.inj (hs.text.symm.trans (hs.text_eq_ok_iff.2 h))

@[simp] theorem Quote.ofString_inj {s t : String} : Quote.ofString s = t ↔ s = t := ofString_injective.eq_iff

end Json
end VideoTransport
