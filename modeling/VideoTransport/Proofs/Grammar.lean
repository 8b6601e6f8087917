import VideoTransport.Proofs.Convoy
/-!
# Grammar — which payloads make up an access unit

A list of payloads makes up an access unit if it falls into items: payloads that are NAL units themselves, and runs of
pieces of one NAL unit, of which the first and only the first opens the run and the last and only the last closes it
(`Parses`).  An assembler accepts exactly these lists (`finished?_hear_iff`): from a convoy with such payloads it makes
the access unit of the items' NAL units, and from any other convoy nothing (`processAll_grammar`).
-/
namespace VideoTransport

/-! ## Items -/

/-- A payload of two octets or more. -/
structure Piece where
  indicator : UInt8
  flags : UInt8
  body : Bytes
  deriving DecidableEq, Repr

namespace Piece

def payload (p : Piece) : Bytes := p.indicator :: p.flags :: p.body

def kind (p : Piece) : UInt8 := Nal.typeOf p.flags

def opens (p : Piece) : Bool := p.flags &&& 0x80 ≠ 0

def closes (p : Piece) : Bool := p.flags &&& 0x40 ≠ 0

/-- The header of the NAL unit that the piece is of: its upper bits from the indicator, its type from the flags. -/
def header (p : Piece) : UInt8 := p.indicator &&& 0xe0 ||| p.kind

def fragment (p : Piece) : Fragment := ⟨p.indicator, p.kind, p.opens, p.closes, p.body⟩

end Piece

inductive Item where
  | whole (nal : Bytes)
  | run (first : Piece) (later : List Piece)
  deriving DecidableEq, Repr

namespace Item

def payloads : Item → List Bytes
  | whole nal => [nal]
  | run first later => (first :: later).map Piece.payload

/-- The NAL unit that the payloads carry. -/
def nal : Item → Bytes
  | whole nal => nal
  | run first later => first.header :: (first :: later).flatMap Piece.body

/-- Whether the payloads of an item may stand for its NAL unit. -/
def IsFormed : Item → Prop
  | whole nal => Nal.isCarriable nal = true
  | run first later =>
    (∀ p ∈ first :: later, Nal.typeOf p.indicator = Nal.fragment) ∧ (∀ p ∈ later, p.kind = first.kind) ∧
      (first :: later).map Piece.opens = true :: List.replicate later.length false ∧
      (first :: later).map Piece.closes = List.replicate later.length false ++ [true]

instance : (item : Item) → Decidable item.IsFormed
  | whole _ => inferInstanceAs (Decidable (_ = true))
  | run _ _ => inferInstanceAs (Decidable (_ ∧ _ ∧ _ ∧ _))

end Item

/-- The payloads fall into these items, of which there is at least one. -/
structure Parses (payloads : List Bytes) (items : List Item) : Prop where
  nonempty : items ≠ []
  formed : ∀ item ∈ items, item.IsFormed
  payloads : payloads = items.flatMap Item.payloads

/-! ## Runs piece by piece -/

/-- A piece that goes on with a run of NAL type `kind`. -/
structure Piece.GoesOn (p : Piece) (kind : UInt8) : Prop where
  fragment : Nal.typeOf p.indicator = Nal.fragment
  kind : p.kind = kind
  opens : p.opens = false

/-- Pieces that go on with a run until the last of them closes it. -/
def Continues (kind : UInt8) : Piece → List Piece → Prop
  | p, [] => p.GoesOn kind ∧ p.closes = true
  | p, next :: later => p.GoesOn kind ∧ p.closes = false ∧ Continues kind next later

theorem closes_cons_iff {p next : Piece} {later : List Piece} :
    (p :: next :: later).map Piece.closes = List.replicate (next :: later).length false ++ [true] ↔
      p.closes = false ∧ (next :: later).map Piece.closes = List.replicate later.length false ++ [true] := by
  rw [List.map_cons, List.length_cons, List.replicate_succ, List.cons_append, List.cons.injEq]

theorem opens_cons_iff {p : Piece} {later : List Piece} :
    (p :: later).map Piece.opens = true :: List.replicate later.length false ↔
      p.opens = true ∧ ∀ q ∈ later, q.opens = false := by
  rw [List.map_cons, List.cons.injEq, List.map_eq_replicate_iff]

theorem continues_iff {kind : UInt8} : ∀ (later : List Piece) (p : Piece),
    Continues kind p later ↔ (∀ q ∈ p :: later, q.GoesOn kind) ∧
      (p :: later).map Piece.closes = List.replicate later.length false ++ [true]
  | [], p => by simp [Continues]
  | next :: later, p => by
    rw [Continues, continues_iff later next, closes_cons_iff]
    constructor
    · rintro ⟨hp, hcloses, hlater, hlast⟩
      exact ⟨List.forall_mem_cons.2 ⟨hp, hlater⟩, hcloses, hlast⟩
    · rintro ⟨hall, hcloses, hlast⟩
      obtain ⟨hp, hlater⟩ := List.forall_mem_cons.1 hall
      exact ⟨hp, hcloses, hlater, hlast⟩

theorem isFormed_run_nil {p : Piece} :
    (Item.run p []).IsFormed ↔ Nal.typeOf p.indicator = Nal.fragment ∧ p.opens = true ∧ p.closes = true := by
  simp [Item.IsFormed]

theorem isFormed_run_cons {p next : Piece} {later : List Piece} :
    (Item.run p (next :: later)).IsFormed ↔
      Nal.typeOf p.indicator = Nal.fragment ∧ p.opens = true ∧ p.closes = false ∧ Continues p.kind next later := by
  rw [continues_iff, Item.IsFormed, opens_cons_iff, closes_cons_iff]
  constructor
  · rintro ⟨hall, hkind, ⟨hopens, hlater⟩, hcloses, hlast⟩
    obtain ⟨hp, hfragment⟩ := List.forall_mem_cons.1 hall
    exact ⟨hp, hopens, hcloses, fun q hq => ⟨hfragment q hq, hkind q hq, hlater q hq⟩, hlast⟩
  · rintro ⟨hp, hopens, hcloses, hlater, hlast⟩
    exact ⟨List.forall_mem_cons.2 ⟨hp, fun q hq => (hlater q hq).fragment⟩, fun q hq => (hlater q hq).kind,
      ⟨hopens, fun q hq => (hlater q hq).opens⟩, hcloses, hlast⟩

/-! ## Hearing a piece -/

theorem Piece.read_payload {p : Piece} (h : Nal.typeOf p.indicator = Nal.fragment) :
    Payload.read p.payload = .ok (.fragment p.fragment) := by
  have hns : Nal.isSingle Nal.fragment = false := by decide
  simp only [payload, Payload.read, h, hns, Bool.false_eq_true, if_false, if_true]
  rfl

theorem Payload.read_cases (data : Bytes) :
    (Nal.isCarriable data = true ∧ read data = .ok (.single data)) ∨
      (∃ p : Piece, data = p.payload ∧ Nal.typeOf p.indicator = Nal.fragment) ∨
      ∃ reason, read data = .error reason := by
  cases data with
  | nil => exact .inr (.inr ⟨_, rfl⟩)
  | cons header rest =>
    by_cases hs : Nal.isSingle (Nal.typeOf header) = true
    · exact .inl ⟨hs, Payload.read_single rfl hs⟩
    · by_cases hf : Nal.typeOf header = Nal.fragment
      · cases rest with
        | nil => exact .inr (.inr ⟨.truncated, by simp only [read, hf]; rfl⟩)
        | cons flags body => exact .inr (.inl ⟨⟨header, flags, body⟩, rfl, hf⟩)
      · exact .inr (.inr ⟨.unsupportedType (Nal.typeOf header), by simp only [read, hs, hf]; rfl⟩)

namespace FrameContent

@[simp] theorem close_true (nals : List Bytes) (run : FragmentRun) :
    close true nals run = intact (run.nal :: nals) none := rfl

@[simp] theorem close_false (nals : List Bytes) (run : FragmentRun) :
    close false nals run = intact nals (some run) := rfl

theorem hear_piece_between {p : Piece} (h : Nal.typeOf p.indicator = Nal.fragment) (nals : List Bytes) :
    (intact nals none).hear p.payload =
      if p.opens then close p.closes nals ⟨p.kind, p.header, [p.body]⟩ else .broken := by
  rw [hear, Piece.read_payload h]
  rfl

theorem hear_piece_within {p : Piece} (h : Nal.typeOf p.indicator = Nal.fragment) (nals : List Bytes)
    (run : FragmentRun) :
    (intact nals (some run)).hear p.payload =
      if p.opens || run.kind ≠ p.kind then .broken
      else close p.closes nals { run with bodies := p.body :: run.bodies } := by
  rw [hear, Piece.read_payload h]
  rfl

theorem hear_unread {data : Bytes} {reason : Malformation} (h : Payload.read data = .error reason)
    (c : FrameContent) : c.hear data = .broken := by rw [hear, h]

theorem hear_single_within {data : Bytes} (h : Payload.read data = .ok (.single data)) (nals : List Bytes)
    (run : FragmentRun) : (intact nals (some run)).hear data = .broken := by
  rw [hear, h]
  rfl

/-! ## From items to NAL units -/

theorem hear_continues (nals : List Bytes) : ∀ (later : List Piece) (p : Piece) (run : FragmentRun),
    Continues run.kind p later →
    ((p :: later).map Piece.payload).foldl hear (intact nals (some run)) =
      intact ((run.header :: (run.bodies.reverse.flatten ++ (p :: later).flatMap Piece.body)) :: nals) none
  | [], p, run, ⟨hp, hcloses⟩ => by
    rw [List.map_cons, List.foldl_cons, hear_piece_within hp.fragment, hp.opens, hp.kind, hcloses]
    simp [FragmentRun.nal]
  | next :: later, p, run, ⟨hp, hcloses, hlater⟩ => by
    rw [List.map_cons, List.foldl_cons, hear_piece_within hp.fragment, hp.opens, hp.kind, hcloses]
    simp only [close_false, Bool.false_or, ne_eq, not_true_eq_false, decide_false, Bool.false_eq_true, if_false]
    rw [hear_continues nals later next { run with bodies := p.body :: run.bodies } hlater]
    simp

theorem hear_item {item : Item} (h : item.IsFormed) (nals : List Bytes) :
    item.payloads.foldl hear (intact nals none) = intact (item.nal :: nals) none := by
  cases item with
  | whole nal => rw [Item.payloads, List.foldl_cons, hear_whole h, List.foldl_nil, Item.nal]
  | run p later =>
    cases later with
    | nil =>
      obtain ⟨htype, hopens, hcloses⟩ := isFormed_run_nil.1 h
      rw [Item.payloads, List.map_cons, List.foldl_cons, hear_piece_between htype, hopens, hcloses]
      simp [FragmentRun.nal, Item.nal]
    | cons next later =>
      obtain ⟨htype, hopens, hcloses, hlater⟩ := isFormed_run_cons.1 h
      rw [Item.payloads, List.map_cons, List.foldl_cons, hear_piece_between htype, hopens, hcloses, if_pos rfl,
        close_false, hear_continues nals later next _ hlater]
      simp [Item.nal]

theorem hear_items : ∀ (items : List Item) (nals : List Bytes), (∀ item ∈ items, item.IsFormed) →
    (items.flatMap Item.payloads).foldl hear (intact nals none) =
      intact ((items.map Item.nal).reverse ++ nals) none
  | [], _, _ => rfl
  | item :: items, nals, h => by
    rw [List.flatMap_cons, List.foldl_append, hear_item (h item List.mem_cons_self),
      hear_items items _ fun i hi => h i (List.mem_cons_of_mem item hi)]
    simp

/-! ## From NAL units to items -/

-- Both by induction on the payloads: a broken frame stays broken, so each payload must have found its place.
mutual

/-- What has been heard between two items falls into items. -/
theorem items_of_hear : ∀ {payloads nals result : List Bytes},
    payloads.foldl hear (intact nals none) = intact result none →
    ∃ items : List Item, (∀ item ∈ items, item.IsFormed) ∧ payloads = items.flatMap Item.payloads
  | [], _, _, _ => ⟨[], fun _ hi => absurd hi List.not_mem_nil, rfl⟩
  | data :: rest, nals, result, h => by
    rw [List.foldl_cons] at h
    rcases Payload.read_cases data with ⟨hcarry, -⟩ | ⟨p, rfl, htype⟩ | ⟨reason, hread⟩
    · rw [hear_whole hcarry] at h
      obtain ⟨items, hformed, hpayloads⟩ := items_of_hear h
      exact ⟨.whole data :: items, List.forall_mem_cons.2 ⟨hcarry, hformed⟩, congrArg (data :: ·) hpayloads⟩
    · rw [hear_piece_between htype] at h
      cases hopens : p.opens with
      | false =>
        rw [hopens, if_neg Bool.false_ne_true, foldl_hear_broken] at h
        cases h
      | true =>
        rw [hopens, if_pos rfl] at h
        cases hcloses : p.closes with
        | true =>
          rw [hcloses, close_true] at h
          obtain ⟨items, hformed, hpayloads⟩ := items_of_hear h
          have hitem := isFormed_run_nil.2 ⟨htype, hopens, hcloses⟩
          exact ⟨.run p [] :: items, List.forall_mem_cons.2 ⟨hitem, hformed⟩, congrArg (p.payload :: ·) hpayloads⟩
        | false =>
          rw [hcloses, close_false] at h
          obtain ⟨next, later, items, hlater, hformed, hpayloads⟩ := continues_of_hear h
          have hitem := isFormed_run_cons.2 ⟨htype, hopens, hcloses, hlater⟩
          exact ⟨.run p (next :: later) :: items, List.forall_mem_cons.2 ⟨hitem, hformed⟩,
            congrArg (p.payload :: ·) hpayloads⟩
    · rw [hear_unread hread, foldl_hear_broken] at h
      cases h

/-- What has been heard within a run falls into pieces that go on with the run, and items. -/
theorem continues_of_hear : ∀ {payloads nals result : List Bytes} {run : FragmentRun},
    payloads.foldl hear (intact nals (some run)) = intact result none →
    ∃ (p : Piece) (later : List Piece) (items : List Item), Continues run.kind p later ∧
      (∀ item ∈ items, item.IsFormed) ∧
      payloads = (p :: later).map Piece.payload ++ items.flatMap Item.payloads
  | [], _, _, _, h => by cases h
  | data :: rest, nals, result, run, h => by
    rw [List.foldl_cons] at h
    rcases Payload.read_cases data with ⟨-, hread⟩ | ⟨p, rfl, htype⟩ | ⟨reason, hread⟩
    · rw [hear_single_within hread, foldl_hear_broken] at h
      cases h
    · rw [hear_piece_within htype] at h
      by_cases hstray : (p.opens || run.kind ≠ p.kind) = true
      · rw [if_pos hstray, foldl_hear_broken] at h
        cases h
      · rw [if_neg hstray] at h
        simp only [Bool.or_eq_true, decide_eq_true_eq, not_or, Bool.not_eq_true, ne_eq, Decidable.not_not] at hstray
        have hp : p.GoesOn run.kind := ⟨htype, hstray.2.symm, hstray.1⟩
        cases hcloses : p.closes with
        | true =>
          rw [hcloses, close_true] at h
          obtain ⟨items, hformed, hpayloads⟩ := items_of_hear h
          exact ⟨p, [], items, ⟨hp, hcloses⟩, hformed, congrArg (p.payload :: ·) hpayloads⟩
        | false =>
          rw [hcloses, close_false] at h
          obtain ⟨next, later, items, hlater, hformed, hpayloads⟩ := continues_of_hear h
          exact ⟨p, next :: later, items, ⟨hp, hcloses, hlater⟩, hformed, congrArg (p.payload :: ·) hpayloads⟩
    · rw [hear_unread hread, foldl_hear_broken] at h
      cases h

end

/-- **A frame accepts the grammar and nothing else.** -/
theorem finished?_hear_iff {payloads nals : List Bytes} :
    (payloads.foldl hear (intact [] none)).finished? = some nals ↔
      ∃ items, Parses payloads items ∧ nals = items.map Item.nal := by
  rw [finished?_eq_some_iff]
  constructor
  · rintro ⟨hne, hcontent⟩
    obtain ⟨items, hformed, hpayloads⟩ := items_of_hear hcontent
    have hitems := hear_items items [] hformed
    rw [← hpayloads, hcontent, List.append_nil] at hitems
    have hnals : nals = items.map Item.nal := List.reverse_inj.1 (FrameContent.intact.inj hitems).1
    refine ⟨items, ⟨?_, hformed, hpayloads⟩, hnals⟩
    rintro rfl
    exact hne hnals
  · rintro ⟨items, ⟨hne, hformed, hpayloads⟩, rfl⟩
    rw [hpayloads, hear_items items [] hformed, List.append_nil]
    exact ⟨fun h => hne (List.map_eq_nil_iff.1 h), rfl⟩

end FrameContent

/-! ## Convoys -/

namespace Assembler

section

variable {cipher : Cipher} {timestamp : UInt32} {start : Serial} {payloads : List Bytes} {packets : List Rtp.Packet}
  {pool : Pool}

theorem processAll_of_parses (h : Conveys cipher timestamp start payloads packets) (hne : packets ≠ [])
    (hroom : pool.HasRoom) (limit : Nat) {items : List Item} (hitems : Parses payloads items) :
    ((create cipher pool limit).processAll packets).2 =
        List.replicate (packets.length - 1) (.ok none) ++
          [.ok (some (AccessUnit.assembled timestamp (items.map Item.nal)))] ∧
      ((create cipher pool limit).processAll packets).1.stats.completed = 1 ∧
      ((create cipher pool limit).processAll packets).1.stats.dropped = 0 := by
  have hpassed := passed_new h hne pool limit
  rw [FrameContent.unit?, FrameContent.finished?_hear_iff.2 ⟨items, hitems, rfl⟩] at hpassed
  obtain ⟨hanswers, -, hcompleted, hdropped⟩ := hpassed.of_due hroom
  exact ⟨hanswers, hcompleted, hdropped⟩

theorem processAll_of_not_parses (h : Conveys cipher timestamp start payloads packets) (hne : packets ≠ [])
    (pool : Pool) (limit : Nat) (hnone : ¬∃ items, Parses payloads items) :
    ((create cipher pool limit).processAll packets).2 = List.replicate packets.length (.ok none) ∧
      ((create cipher pool limit).processAll packets).1.stats.completed = 0 ∧
      ((create cipher pool limit).processAll packets).1.stats.dropped = 1 := by
  have hpassed := passed_new h hne pool limit
  have hunfinished : (payloads.foldl .hear (.intact [] none) : FrameContent).finished? = none := by
    cases hfinished : (payloads.foldl .hear (.intact [] none) : FrameContent).finished? with
    | none => rfl
    | some nals =>
      obtain ⟨items, hitems, -⟩ := FrameContent.finished?_hear_iff.1 hfinished
      exact absurd ⟨items, hitems⟩ hnone
  rw [FrameContent.unit?, hunfinished, Option.map_none] at hpassed
  obtain ⟨hanswers, -, hcompleted, hdropped⟩ := hpassed.of_not_due
  rw [Nat.sub_add_cancel (List.length_pos_iff.2 hne)] at hanswers
  exact ⟨hanswers, hcompleted, hdropped⟩

end

/-- **An assembler accepts exactly the payload grammar.**  A convoy brings a new assembler to an access unit just when
its payloads fall into items; the unit then is that of the items' NAL units, and it comes out at the last packet.  A
convoy with other payloads brings nothing, and its frame counts as dropped. -/
theorem processAll_grammar {timestamp : UInt32} {start : Serial} {packets : List Rtp.Packet} (hne : packets ≠ [])
    (hconvoy : Rtp.IsConvoy timestamp start packets) {pool : Pool} (hroom : pool.HasRoom) (limit : Nat) :
    ((∃ unit, ((create .identity pool limit).processAll packets).2.getLast? = some (.ok (some unit))) ↔
      ∃ items, Parses (packets.map (·.payload)) items) ∧
    (∀ items, Parses (packets.map (·.payload)) items →
      ((create .identity pool limit).processAll packets).2 =
        List.replicate (packets.length - 1) (.ok none) ++
          [.ok (some (AccessUnit.assembled timestamp (items.map Item.nal)))] ∧
      ((create .identity pool limit).processAll packets).1.stats.completed = 1 ∧
      ((create .identity pool limit).processAll packets).1.stats.dropped = 0) ∧
    ((¬∃ items, Parses (packets.map (·.payload)) items) →
      ((create .identity pool limit).processAll packets).2 = List.replicate packets.length (.ok none) ∧
      ((create .identity pool limit).processAll packets).1.stats.completed = 0 ∧
      ((create .identity pool limit).processAll packets).1.stats.dropped = 1) := by
  have hconveys := conveys_identity hconvoy
  refine ⟨⟨?_, ?_⟩, fun items => processAll_of_parses hconveys hne hroom limit,
    processAll_of_not_parses hconveys hne pool limit⟩
  · rintro ⟨unit, hunit⟩
    refine Classical.byContradiction fun hnone => ?_
    rw [(processAll_of_not_parses hconveys hne pool limit hnone).1] at hunit
    cases List.eq_of_mem_replicate (List.mem_of_getLast? hunit)
  · rintro ⟨items, hitems⟩
    rw [(processAll_of_parses hconveys hne hroom limit hitems).1]
    exact ⟨_, List.getLast?_concat⟩

/-- A parameter set in one packet and a refresh picture in two, numbered across the end of the circle. -/
def mixed : List Rtp.Packet :=
  [⟨⟨false, 96, 0xffff, 0, 1⟩, [0x67, 0x42]⟩, ⟨⟨false, 96, 0, 0, 1⟩, [0x7c, 0x85, 1]⟩,
    ⟨⟨true, 96, 1, 0, 1⟩, [0x7c, 0x45, 2]⟩]

theorem processAll_grammar_mixed :
    ((create .identity { limit := 1 } 1).processAll mixed).2 =
      [.ok none, .ok none, .ok (some (AccessUnit.assembled 0 [[0x67, 0x42], [0x65, 1, 2]]))] := by
  have hconvoy : Rtp.IsConvoy 0 0xffff mixed := by decide
  have hroom : Pool.HasRoom { limit := 1 } := by decide
  have hitems : Parses (mixed.map (·.payload))
      [.whole [0x67, 0x42], .run ⟨0x7c, 0x85, [1]⟩ [⟨0x7c, 0x45, [2]⟩]] := ⟨by decide, by decide, by decide⟩
  obtain ⟨-, haccept, -⟩ := processAll_grammar (by decide) hconvoy hroom 1
  exact (haccept _ hitems).1

end Assembler
end VideoTransport
