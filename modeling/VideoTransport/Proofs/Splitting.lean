import Mathlib.Data.List.Chain
import VideoTransport.Nal.AnnexB
/-!
# Splitting — bitstreams laid out with start codes and cut again

A bitstream is laid out as a front and sections, each a start code of three or four octets and the stretch behind it
(`AnnexB.lay`).  Where no start code is in the front or in a stretch, cutting gives back the stretches, except that a
zero before a short code goes to the code (`AnnexB.stretches_lay`); so they all come back exactly if no short code
stands behind a zero (`AnnexB.nalUnits_lay_iff`).  Every bitstream is laid out in such a way (`AnnexB.exists_layout`),
so that cutting loses nothing but start codes, the front and empty stretches (`AnnexB.nalUnits_lossless`).
-/
namespace VideoTransport
namespace AnnexB

/-! ## Start codes in octets -/

/-- The start code of three octets. -/
def shortCode : Bytes := [0, 0, 1]

/-- Whether a start code opens anywhere in these octets. -/
def holdsStartCode : Bytes → Bool
  | [] => false
  | b :: rest => opensWithStartCode (b :: rest) || holdsStartCode rest

theorem opensWithStartCode_iff {octets : Bytes} :
    opensWithStartCode octets = true ↔ shortCode <+: octets ∨ startCode <+: octets := by
  constructor
  · intro h
    unfold opensWithStartCode at h
    split at h
    · exact .inl ⟨_, rfl⟩
    · exact .inr ⟨_, rfl⟩
    · cases h
  · rintro (⟨rest, rfl⟩ | ⟨rest, rfl⟩) <;> rfl

theorem opensWithStartCode_mono {octets more : Bytes} (h : opensWithStartCode more = false)
    (hp : octets <+: more) : opensWithStartCode octets = false := by
  rw [← Bool.not_eq_true, opensWithStartCode_iff] at h ⊢
  exact fun hcode => h (hcode.imp (·.trans hp) (·.trans hp))

/-- The long code ends in the short one, so that only the latter need be looked for. -/
theorem holdsStartCode_iff : ∀ {octets : Bytes}, holdsStartCode octets = true ↔ shortCode <:+: octets
  | [] => by simp [holdsStartCode, shortCode]
  | b :: rest => by
    rw [holdsStartCode, Bool.or_eq_true, holdsStartCode_iff, opensWithStartCode_iff, List.infix_cons_iff, or_assoc]
    refine or_congr_right (or_iff_right_of_imp fun hlong => ?_)
    exact (List.cons_prefix_cons.1 hlong).2.isInfix

theorem holdsStartCode_eq_false_iff {octets : Bytes} : holdsStartCode octets = false ↔ ¬shortCode <:+: octets := by
  rw [← holdsStartCode_iff, Bool.not_eq_true]

theorem holdsStartCode_mono {octets more : Bytes} (h : holdsStartCode more = false) (hp : octets <+: more) :
    holdsStartCode octets = false :=
  holdsStartCode_eq_false_iff.2 fun hcode => holdsStartCode_eq_false_iff.1 h (hcode.trans hp.isInfix)

/-- Every start code opens with a zero. -/
theorem holdsStartCode_of_nonzero {octets : Bytes} (h : ∀ b ∈ octets, b ≠ 0) : holdsStartCode octets = false :=
  holdsStartCode_eq_false_iff.2 fun hcode => h 0 (hcode.subset List.mem_cons_self) rfl

/-! ## Layouts -/

/-- A start code and the stretch behind it. -/
structure Section where
  isLong : Bool
  stretch : Bytes
  deriving DecidableEq, Repr

namespace Section

def code (s : Section) : Bytes := if s.isLong then startCode else shortCode

/-- Whether the code leaves what stands before it whole: a short code takes a zero and becomes a long one. -/
def Spares (s : Section) (before : Bytes) : Prop := s.isLong = true ∨ before.getLast? ≠ some 0

instance (s : Section) (before : Bytes) : Decidable (s.Spares before) := inferInstanceAs (Decidable (_ ∨ _))

end Section

/-- A bitstream: what stands before the first start code, and then the sections. -/
def lay (front : Bytes) (sections : List Section) : Bytes := front ++ sections.flatMap fun s => s.code ++ s.stretch

theorem lay_cons (front : Bytes) (s : Section) (rest : List Section) :
    lay front (s :: rest) = front ++ (s.code ++ lay s.stretch rest) := by
  rw [lay, List.flatMap_cons, List.append_assoc]
  rfl

/-- What is cut out of a bitstream so laid out, the front first: all that stands before a start code, without a zero
that the code takes. -/
def kept : Bytes → List Section → List Bytes
  | before, [] => [before]
  | before, s :: rest => (if s.Spares before then before else before.dropLast) :: kept s.stretch rest

/-! ## Cutting a layout -/

theorem cut_of_not_opens {b : UInt8} {rest : Bytes} (h : opensWithStartCode (b :: rest) = false)
    (current : Bytes) (done : List Bytes) : cut (b :: rest) current done = cut rest (b :: current) done := by
  rw [cut.eq_def]
  split
  · rename_i heq
    rw [heq] at h
    cases h
  · rename_i heq
    rw [heq] at h
    cases h
  · rename_i heq
    cases heq
    rfl
  · rename_i heq
    cases heq

theorem cut_code (s : Section) (rest current : Bytes) (done : List Bytes) :
    cut (s.code ++ rest) current done = cut rest [] (current.reverse :: done) := by
  unfold Section.code
  split
  · rw [startCode, List.cons_append, List.cons_append, List.cons_append, List.cons_append, cut, List.nil_append]
  · rw [shortCode, List.cons_append, List.cons_append, List.cons_append, cut, List.nil_append]

/-- What stands behind a stretch: nothing, or a start code that spares it. -/
def IsBorder (stretch tail : Bytes) : Prop := tail = [] ∨ ∃ s : Section, s.Spares stretch ∧ s.code <+: tail

theorem IsBorder.of_cons {b : UInt8} {rest tail : Bytes} (h : IsBorder (b :: rest) tail) : IsBorder rest tail := by
  refine h.imp_right fun ⟨s, hspares, hcode⟩ => ⟨s, hspares.imp_right fun hlast hrest => hlast ?_, hcode⟩
  rw [List.getLast?_cons, hrest]
  rfl

/-- A code that opens before a border has its end before the border. -/
theorem opens_append {b : UInt8} {rest tail : Bytes} (h : opensWithStartCode (b :: rest) = false)
    (ht : IsBorder (b :: rest) tail) : opensWithStartCode (b :: (rest ++ tail)) = false := by
  rw [← Bool.not_eq_true, opensWithStartCode_iff] at h ⊢
  rcases ht with rfl | ⟨⟨isLong, stretch⟩, hspares, after, rfl⟩
  · rwa [List.append_nil]
  · -- four octets decide, and those behind the border begin with two zeros
    cases isLong with
    | true =>
      rw [Section.code, if_pos rfl, startCode]
      match rest with
      | [] => simp [shortCode, List.cons_prefix_cons]
      | [c] => simp [shortCode, List.cons_prefix_cons]
      | [c, d] => simpa [startCode, shortCode, List.cons_prefix_cons] using h
      | c :: d :: e :: more => simpa [startCode, shortCode, List.cons_prefix_cons] using h
    | false =>
      have hlast : (b :: rest).getLast? ≠ some 0 := hspares.resolve_left Bool.false_ne_true
      rw [Section.code, if_neg Bool.false_ne_true, shortCode]
      match rest with
      | [] => simpa [startCode, List.cons_prefix_cons, eq_comm] using hlast
      | [c] => simp [startCode, List.cons_prefix_cons]
      | [c, d] => simpa [startCode, shortCode, List.cons_prefix_cons] using h
      | c :: d :: e :: more => simpa [startCode, shortCode, List.cons_prefix_cons] using h

/-- **A stretch without a start code** is read to its border. -/
theorem cut_append : ∀ {stretch tail : Bytes} (current : Bytes) (done : List Bytes), holdsStartCode stretch = false →
    IsBorder stretch tail → cut (stretch ++ tail) current done = cut tail (stretch.reverse ++ current) done
  | [], _, _, _, _, _ => rfl
  | b :: rest, tail, current, done, h, ht => by
    rw [holdsStartCode, Bool.or_eq_false_iff] at h
    rw [List.cons_append, cut_of_not_opens (opens_append h.1 ht), cut_append _ _ h.2 ht.of_cons, List.reverse_cons,
      List.append_assoc]
    rfl

/-- A stretch is read to a start code, which takes a zero if it is short and the stretch ends with one. -/
theorem cut_section {before : Bytes} (h : holdsStartCode before = false) (s : Section) (rest : Bytes)
    (done : List Bytes) :
    cut (before ++ (s.code ++ rest)) [] done =
      cut rest [] ((if s.Spares before then before else before.dropLast) :: done) := by
  by_cases hspares : s.Spares before
  · rw [cut_append _ _ h (.inr ⟨s, hspares, List.prefix_append _ _⟩), cut_code, if_pos hspares, List.append_nil,
      List.reverse_reverse]
  · rw [if_neg hspares]
    obtain ⟨hshort, hzero⟩ := not_or.1 hspares
    obtain ⟨less, rfl⟩ := List.getLast?_eq_some_iff.1 (not_not.1 hzero)
    -- the zero and the short code are a long code
    have hcode : less ++ [0] ++ (s.code ++ rest) = less ++ (startCode ++ rest) := by
      rw [Section.code, if_neg hshort, List.append_assoc]
      rfl
    have hborder : IsBorder less (startCode ++ rest) :=
      .inr ⟨⟨true, []⟩, .inl rfl, List.prefix_append startCode rest⟩
    rw [hcode, cut_append _ _ (holdsStartCode_mono h (List.prefix_append less [0])) hborder,
      show startCode = Section.code ⟨true, []⟩ from rfl, cut_code, List.append_nil, List.reverse_reverse,
      List.dropLast_concat]

theorem cut_lay : ∀ (sections : List Section) (front : Bytes) (done : List Bytes), holdsStartCode front = false →
    (∀ s ∈ sections, holdsStartCode s.stretch = false) →
    cut (lay front sections) [] done = done.reverse ++ kept front sections
  | [], front, done, hfront, _ => by
    rw [lay, List.flatMap_nil, cut_append _ _ hfront (.inl rfl), List.append_nil]
    show (front.reverse.reverse :: done).reverse = done.reverse ++ [front]
    rw [List.reverse_reverse, List.reverse_cons]
  | s :: rest, front, done, hfront, hrest => by
    rw [lay_cons, cut_section hfront, cut_lay rest s.stretch _ (hrest s List.mem_cons_self)
      fun t ht => hrest t (List.mem_cons_of_mem s ht), kept, List.reverse_cons, List.append_assoc]
    rfl

/-- **A layout is cut at its start codes.** -/
theorem stretches_lay {front : Bytes} {sections : List Section} (hfront : holdsStartCode front = false)
    (hsections : ∀ s ∈ sections, holdsStartCode s.stretch = false) :
    stretches (lay front sections) = kept front sections :=
  cut_lay sections front [] hfront hsections

/-! ## What comes back -/

/-- No code takes anything from the stretch before it. -/
def IsExact (sections : List Section) : Prop := sections.IsChain fun s t => t.Spares s.stretch

instance (sections : List Section) : Decidable (IsExact sections) := inferInstanceAs (Decidable (List.IsChain _ _))

theorem kept_of_isExact : ∀ {rest : List Section} {s : Section}, IsExact (s :: rest) →
    kept s.stretch rest = (s :: rest).map (·.stretch)
  | [], _, _ => rfl
  | t :: rest, s, h => by
    obtain ⟨hspares, hrest⟩ := List.isChain_cons_cons.1 h
    rw [kept, if_pos hspares, kept_of_isExact hrest]
    rfl

/-- A stretch that loses a zero is shorter. -/
theorem length_sparing (t : Section) (before : Bytes) :
    (if t.Spares before then before else before.dropLast).length + (if t.Spares before then 0 else 1) =
      before.length := by
  split
  · rfl
  · rename_i hspares
    obtain ⟨less, rfl⟩ := List.getLast?_eq_some_iff.1 (not_not.1 (not_or.1 hspares).2)
    rw [List.dropLast_concat, List.length_append, List.length_singleton]

/-- What is kept is no more than there was, and less unless every stretch is kept whole. -/
theorem length_kept : ∀ (rest : List Section) (s : Section),
    (kept s.stretch rest).flatten.length ≤ ((s :: rest).map (·.stretch)).flatten.length ∧
      ((kept s.stretch rest).flatten.length = ((s :: rest).map (·.stretch)).flatten.length → IsExact (s :: rest))
  | [], s => ⟨Nat.le_refl _, fun _ => .singleton s⟩
  | t :: rest, s => by
    obtain ⟨hle, hexact⟩ := length_kept rest t
    have hlength := length_sparing t s.stretch
    rw [kept, List.flatten_cons, List.length_append, List.map_cons, List.flatten_cons, List.length_append]
    refine ⟨by omega, fun heq => List.isChain_cons_cons.2 ⟨?_, hexact (by omega)⟩⟩
    by_contra hspares
    rw [if_neg hspares, if_neg hspares] at hlength
    rw [if_neg hspares] at heq
    omega

theorem filter_kept_iff (rest : List Section) (s : Section) :
    (kept s.stretch rest).filter (fun nal => !nal.isEmpty) =
        ((s :: rest).map (·.stretch)).filter (fun nal => !nal.isEmpty) ↔ IsExact (s :: rest) := by
  constructor
  · intro heq
    have hflat := congrArg List.flatten heq
    rw [List.flatten_filter_not_isEmpty, List.flatten_filter_not_isEmpty] at hflat
    exact (length_kept rest s).2 (congrArg List.length hflat)
  · intro h
    rw [kept_of_isExact h]

theorem nalUnits_lay_eq_iff {front : Bytes} {sections : List Section} (hfront : holdsStartCode front = false)
    (hsections : ∀ s ∈ sections, holdsStartCode s.stretch = false) :
    nalUnits (lay front sections) = (sections.map (·.stretch)).filter (fun nal => !nal.isEmpty) ↔ IsExact sections := by
  rw [nalUnits, stretches_lay hfront hsections]
  cases sections with
  | nil => exact iff_of_true rfl .nil
  | cons s rest => exact filter_kept_iff rest s

/-- **What has been joined is cut again.**  Lay out any stretches, none of which holds a start code, behind start codes
of either length and behind a front without a start code, which may be empty.  The NAL units of this bitstream are the
stretches that hold something, in their order, exactly if each short code is the first one or stands behind a stretch
that does not end with a zero. -/
theorem nalUnits_lay_iff {front : Bytes} {sections : List Section} (hfront : ¬[0, 0, 1] <:+: front)
    (hsections : ∀ s ∈ sections, ¬[0, 0, 1] <:+: s.stretch) :
    nalUnits (lay front sections) = (sections.map (·.stretch)).filter (fun nal => !nal.isEmpty) ↔
      sections.IsChain fun s t => t.isLong = true ∨ s.stretch.getLast? ≠ some 0 :=
  nalUnits_lay_eq_iff (holdsStartCode_eq_false_iff.2 hfront) fun s hs =>
    holdsStartCode_eq_false_iff.2 (hsections s hs)

/-- A short code in front, an empty stretch, and zeros at the ends and beginnings of others. -/
theorem nalUnits_lay_zeros :
    let front : Bytes := [0, 0, 9]
    let sections : List Section :=
      [⟨false, [0x67, 0, 0]⟩, ⟨true, []⟩, ⟨false, [0, 1, 0]⟩, ⟨true, [1, 0x68]⟩, ⟨false, [0, 0x65]⟩]
    (¬[0, 0, 1] <:+: front) ∧ (∀ s ∈ sections, ¬[0, 0, 1] <:+: s.stretch) ∧
      lay front sections =
        [0, 0, 9, 0, 0, 1, 0x67, 0, 0, 0, 0, 0, 1, 0, 0, 1, 0, 1, 0, 0, 0, 0, 1, 1, 0x68, 0, 0, 1, 0, 0x65] ∧
      nalUnits (lay front sections) = [[0x67, 0, 0], [0, 1, 0], [1, 0x68], [0, 0x65]] := by
  intro front sections
  have hfront : ¬[0, 0, 1] <:+: front := by decide
  have hsections : ∀ s ∈ sections, ¬[0, 0, 1] <:+: s.stretch := by decide
  exact ⟨hfront, hsections, by decide, (nalUnits_lay_iff hfront hsections).2 (by decide)⟩

theorem join_eq_lay (nals : List Bytes) : join nals = lay [] (nals.map fun nal => ⟨true, nal⟩) := by
  rw [lay, List.flatMap_map, List.nil_append]
  rfl

/-- The NAL units of a joined bitstream are those it was made of, if each holds something, and no start code. -/
theorem nalUnits_join {nals : List Bytes} (hne : ∀ nal ∈ nals, nal ≠ [])
    (hcode : ∀ nal ∈ nals, holdsStartCode nal = false) : nalUnits (join nals) = nals := by
  have hsections : ∀ s ∈ nals.map (Section.mk true), holdsStartCode s.stretch = false := List.forall_mem_map.2 hcode
  have hexact : IsExact (nals.map (Section.mk true)) :=
    List.Pairwise.isChain (List.pairwise_map.2 (List.pairwise_of_forall fun _ _ => .inl rfl))
  have hstretches : (nals.map (Section.mk true)).map (·.stretch) = nals := by
    rw [List.map_map]
    exact List.map_id' nals
  rw [join_eq_lay, (nalUnits_lay_eq_iff rfl hsections).2 hexact, hstretches]
  refine List.filter_eq_self.2 fun nal hnal => ?_
  rw [List.isEmpty_eq_false_iff.2 (hne nal hnal)]
  rfl

/-! ## Every bitstream is a layout -/

theorem exists_code_of_opens {data : Bytes} (h : opensWithStartCode data = true) :
    ∃ isLong rest, data = Section.code ⟨isLong, []⟩ ++ rest ∧ rest.length < data.length := by
  rcases opensWithStartCode_iff.1 h with ⟨rest, rfl⟩ | ⟨rest, rfl⟩
  · exact ⟨false, rest, rfl, List.length_append ▸ Nat.lt_add_of_pos_left (by decide)⟩
  · exact ⟨true, rest, rfl, List.length_append ▸ Nat.lt_add_of_pos_left (by decide)⟩

/-- Where no start code opens, one octet more in front takes nothing from a code. -/
theorem IsExact.cons_front {b : UInt8} {front : Bytes} {sections : List Section}
    (h : IsExact (⟨true, front⟩ :: sections)) (hopens : opensWithStartCode (b :: lay front sections) = false) :
    IsExact (⟨true, b :: front⟩ :: sections) := by
  cases sections with
  | nil => exact .singleton _
  | cons t rest =>
    obtain ⟨hspares, hrest⟩ := List.isChain_cons_cons.1 h
    refine List.isChain_cons_cons.2 ⟨?_, hrest⟩
    by_cases hlong : t.isLong = true
    · exact .inl hlong
    · refine .inr fun hzero => ?_
      cases front with
      | nil =>
        obtain rfl : b = 0 := Option.some.inj hzero
        rw [lay_cons, Section.code, if_neg hlong] at hopens
        cases hopens
      | cons c more => exact hspares.resolve_left hlong (List.getLast?_cons_cons.symm.trans hzero)

/-- **Every bitstream is a layout** without a start code in its front or in a stretch, whose codes spare what stands
before them; and if it opens with a code nothing stands before the first one. -/
theorem exists_layout (data : Bytes) : ∃ front sections, data = lay front sections ∧ holdsStartCode front = false ∧
    (∀ s ∈ sections, holdsStartCode s.stretch = false) ∧ IsExact (⟨true, front⟩ :: sections) ∧
    (opensWithStartCode data = true → front = []) := by
  cases hopens : opensWithStartCode data with
  | true =>
    obtain ⟨isLong, rest, hdata, hless⟩ := exists_code_of_opens hopens
    obtain ⟨front, sections, hrest, hfront, hsections, hexact, -⟩ := exists_layout rest
    refine ⟨[], ⟨isLong, front⟩ :: sections, ?_, rfl, List.forall_mem_cons.2 ⟨hfront, hsections⟩,
      List.isChain_cons_cons.2 ⟨.inr nofun, List.isChain_cons.2 (List.isChain_cons.1 hexact)⟩, fun _ => rfl⟩
    rw [lay_cons, ← hrest, hdata]
    rfl
  | false =>
    cases data with
    | nil => exact ⟨[], [], rfl, rfl, nofun, .singleton _, fun _ => rfl⟩
    | cons b rest =>
      obtain ⟨front, sections, hrest, hfront, hsections, hexact, -⟩ := exists_layout rest
      rw [hrest] at hopens ⊢
      refine ⟨b :: front, sections, rfl, ?_, hsections, hexact.cons_front hopens, nofun⟩
      rw [holdsStartCode, hfront, Bool.or_false]
      exact opensWithStartCode_mono hopens (List.prefix_append (b :: front) _)
termination_by data.length

/-- The NAL units of a bitstream hold something, and no start code. -/
theorem nalUnits_sound {data : Bytes} : ∀ nal ∈ nalUnits data, nal ≠ [] ∧ holdsStartCode nal = false := by
  obtain ⟨front, sections, rfl, hfront, hsections, hexact, -⟩ := exists_layout data
  rw [(nalUnits_lay_eq_iff hfront hsections).2 hexact.of_cons]
  intro nal hnal
  obtain ⟨hmem, hne⟩ := List.mem_filter.1 hnal
  obtain ⟨s, hs, rfl⟩ := List.mem_map.1 hmem
  exact ⟨by simpa using hne, hsections s hs⟩

/-- **Cutting loses nothing.**  Each NAL unit of a bitstream holds something, and no start code.  The bitstream is a
front without a start code, empty if it opens with one, and behind it start codes of either length with stretches
without start codes, and the NAL units are those of the stretches that hold something.  Joined again, the NAL units are
cut from their bitstream as they were. -/
theorem nalUnits_lossless (data : Bytes) :
    (∀ nal ∈ nalUnits data, nal ≠ [] ∧ ¬[0, 0, 1] <:+: nal) ∧
    (∃ front sections, data = lay front sections ∧ (¬[0, 0, 1] <:+: front) ∧
      (∀ s ∈ sections, ¬[0, 0, 1] <:+: s.stretch) ∧
      (sections.map (·.stretch)).filter (fun nal => !nal.isEmpty) = nalUnits data ∧
      (opensWithStartCode data = true → front = [])) ∧
    nalUnits (join (nalUnits data)) = nalUnits data := by
  refine ⟨fun nal hnal => ?_, ?_, ?_⟩
  · obtain ⟨hne, hcode⟩ := nalUnits_sound nal hnal
    exact ⟨hne, holdsStartCode_eq_false_iff.1 hcode⟩
  · obtain ⟨front, sections, hdata, hfront, hsections, hexact, hopens⟩ := exists_layout data
    refine ⟨front, sections, hdata, holdsStartCode_eq_false_iff.1 hfront,
      fun s hs => holdsStartCode_eq_false_iff.1 (hsections s hs), ?_, hopens⟩
    rw [hdata, (nalUnits_lay_eq_iff hfront hsections).2 hexact.of_cons]
  · exact nalUnits_join (fun nal hnal => (nalUnits_sound nal hnal).1) fun nal hnal => (nalUnits_sound nal hnal).2

end AnnexB
end VideoTransport
