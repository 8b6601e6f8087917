import VideoTransport.Proofs.Attempts
import VideoTransport.Proofs.Loss
/-!
# Retrying — units that are sent again

A sender goes on after a failure, perhaps with the same unit or another one of the same time, and the half that was
accepted of a unit stays in the making at the assembler.  The datagram that was refused has used up its number, so no
packet of a later attempt follows on such a half (`Abandoned`), and the attempt that meets it comes to nothing.  So what
comes out is, in order, units whose own call of `send` has succeeded (`Sender.emits_only_completed`).
-/
namespace VideoTransport

open Serial (nth)

namespace Assembler

/-! ## One packet at a tidy table -/

/-- What the frame of a packet holds before it hears the packet. -/
def resumed (a : Assembler) (timestamp : UInt32) (s : Serial) : FrameContent :=
  match a.find? timestamp with
  | some f => if s = f.lastSequence + 1 then f.content else .broken
  | none => if followsOn a.lastSequence s then .intact [] none else .broken

theorem resumed_of_some {a : Assembler} {timestamp : UInt32} {s : Serial} {f : Frame} (h : a.find? timestamp = some f) :
    a.resumed timestamp s = if s = f.lastSequence + 1 then f.content else .broken := by rw [resumed, h]

theorem resumed_of_none {a : Assembler} {timestamp : UInt32} {s : Serial} (h : a.find? timestamp = none) :
    a.resumed timestamp s = if followsOn a.lastSequence s then .intact [] none else .broken := by rw [resumed, h]

/-- What a packet has made of an assembler when its frame then held `content`. -/
structure Processed (a : Assembler) (p : Rtp.Packet) (content : FrameContent) (b : Assembler)
    (outcome : Except Fault (Option AccessUnit)) : Prop where
  outcome : outcome = a.pool.grant (if p.header.marker then content.unit? p.header.timestamp else none)
  others : ∀ f ∈ b.frames, f.timestamp ≠ p.header.timestamp → f ∈ a.frames
  own : ∀ f ∈ b.frames, f.timestamp = p.header.timestamp →
    p.header.marker = false ∧ f.content = content ∧ f.lastSequence = p.header.sequence
  pending : p.header.marker = false → ∃ f ∈ b.frames, f.timestamp = p.header.timestamp

/-- Finding the frame of a packet touches no other frame, but for one that makes room. -/
structure Touched (a : Assembler) (time : UInt32) (s : Serial) (f : Frame) (b : Assembler) : Prop where
  timestamp : f.timestamp = time
  content : f.content = a.resumed time s
  lastSequence : f.lastSequence = s
  cipher : b.cipher = a.cipher
  pool : b.pool = a.pool
  others : ∀ g ∈ b.frames, g.timestamp ≠ time → g ∈ a.frames
  found : ∃ g ∈ b.frames, g.timestamp = time

theorem Tidy.touched {a : Assembler} (h : a.Tidy) (time : UInt32) (s : Serial) :
    Touched a time s (a.touch time s).1 (a.touch time s).2 := by
  cases hfind : a.find? time with
  | some f =>
    obtain ⟨hmem, htime⟩ := of_find?_eq_some hfind
    rw [touch_of_some hfind]
    exact ⟨htime, (resumed_of_some hfind).symm, rfl, rfl, rfl, fun g hg _ => hg, f, hmem, htime⟩
  | none =>
    rw [touch_of_none hfind h.nodup]
    refine ⟨rfl, (resumed_of_none hfind).symm, rfl, rfl, rfl, fun g hg hne => ?_, a.begun time s,
      List.mem_append_right _ List.mem_cons_self, rfl⟩
    rcases List.mem_append.1 hg with hg | hg
    · exact a.spared_sublist.subset hg
    · exact absurd (congrArg Frame.timestamp (List.mem_singleton.1 hg)) hne

theorem mem_replace {f g : Frame} {frames : List Frame} (h : g ∈ replace f frames) :
    g = f ∨ g ∈ frames ∧ g.timestamp ≠ f.timestamp := by
  obtain ⟨e, he, heq⟩ := List.mem_map.1 h
  split at heq
  · exact .inl heq.symm
  · rename_i hne
    exact .inr ⟨heq ▸ he, heq ▸ hne⟩

/-- The end of a packet: its frame has heard it, and with the marker is ended. -/
theorem Touched.processed {a b : Assembler} {p : Rtp.Packet} {f : Frame}
    (h : Touched a p.header.timestamp p.header.sequence f b) (content : FrameContent) (stats : AssemblerStats) :
    let heard : Assembler := { b with frames := replace { f with content } b.frames, stats }
    let ended := if p.header.marker then heard.finish { f with content } else (heard, .ok none)
    Processed a p content ended.1 ended.2 := by
  intro heard ended
  have hothers : ∀ g ∈ heard.frames, g.timestamp ≠ p.header.timestamp → g ∈ a.frames := by
    intro g hg hne
    rcases mem_replace hg with rfl | ⟨hg, -⟩
    · exact absurd h.timestamp hne
    · exact h.others g hg hne
  have hown : ∀ g ∈ heard.frames, g.timestamp = p.header.timestamp → g = { f with content } := by
    intro g hg htime
    exact (mem_replace hg).resolve_right fun hother => hother.2 (htime.trans h.timestamp.symm)
  cases hm : p.header.marker with
  | true =>
    have hended : ended = heard.finish { f with content } := if_pos hm
    have hframes : ∀ g ∈ ended.1.frames, g ∈ heard.frames ∧ g.timestamp ≠ p.header.timestamp := by
      intro g hg
      rw [hended, (finish_keeps _ _).1] at hg
      obtain ⟨hg, hne⟩ := List.mem_filter.1 hg
      exact ⟨hg, h.timestamp ▸ of_decide_eq_true hne⟩
    refine ⟨?_, fun g hg hne => hothers g (hframes g hg).1 hne, fun g hg htime => absurd htime (hframes g hg).2, ?_⟩
    · rw [hended, (finish_answer _ _).1, if_pos hm]
      exact congrArg₂ (fun (pool : Pool) time => pool.grant (content.unit? time)) h.pool h.timestamp
    · intro hno
      rw [hm] at hno
      cases hno
  | false =>
    have hended : ended = (heard, .ok none) := if_neg (by simp [hm])
    rw [hended]
    refine ⟨by rw [hm]; rfl, hothers, fun g hg htime => ?_, fun _ => ?_⟩
    · rw [hown g hg htime]
      exact ⟨hm, rfl, h.lastSequence⟩
    · obtain ⟨g, hg, htime⟩ := h.found
      refine ⟨_, List.mem_map_of_mem hg, ?_⟩
      rw [if_pos (htime.trans h.timestamp.symm)]
      exact h.timestamp

/-- **A packet at a tidy table** is heard by its frame; the other frames stay or make room. -/
theorem Tidy.processed {a : Assembler} (h : a.Tidy) (p : Rtp.Packet) :
    Processed a p (a.heard p (a.resumed p.header.timestamp p.header.sequence)) (a.process p).1 (a.process p).2 := by
  have ht := h.touched p.header.timestamp p.header.sequence
  unfold Assembler.process
  generalize a.touch p.header.timestamp p.header.sequence = touched at ht
  obtain ⟨f, b⟩ := touched
  have hopens : b.open? p = a.open? p := by rw [open?, open?, ht.cipher]
  cases hopen : a.open? p with
  | none =>
    rw [heard_unreadable hopen]
    simp only [hopens, hopen]
    exact ht.processed .broken _
  | some payload =>
    rw [heard_of_open hopen, ← ht.content]
    simp only [hopens, hopen]
    exact ht.processed (f.content.add payload) _

/-! ## One datagram -/

variable {p : Packetizer} {k : Nat} {time : UInt32} {d : Draft}

/-- What a datagram with draft `d` has made of an assembler and of what has come out, when the frame then held
`content`. -/
structure Handed (p : Packetizer) (k : Nat) (time : UInt32) (marker : Bool) (content : FrameContent) (pool : Pool)
    (r r' : Assembler × List AccessUnit) : Prop where
  cipher : r'.1.cipher = p.cipher
  tidy : r'.1.Tidy
  others : ∀ f ∈ r'.1.frames, f.timestamp ≠ time → f ∈ r.1.frames
  own : ∀ f ∈ r'.1.frames, f.timestamp = time →
    marker = false ∧ f.content = content ∧ f.lastSequence = nth p.nextSequence k
  pending : marker = false → ∃ f ∈ r'.1.frames, f.timestamp = time
  shown : r'.2 = r.2 ++ (pool.granted (if marker then content.unit? time else none)).toList

theorem handed {r : Assembler × List AccessUnit} (hcipher : r.1.cipher = p.cipher) (htidy : r.1.Tidy)
    {e : Pool × Bytes} (hb : p.Bears k time d e.2) :
    Handed p k time d.marker ((r.1.resumed time (nth p.nextSequence k)).hear d.payload) e.1 r (hand r e) := by
  obtain ⟨packet, hparse, htime, hsequence, hmarker, hheard⟩ := hb
  let a : Assembler := { r.1 with pool := e.1 }
  have ha : a.Tidy := ⟨htidy.limit_pos, htidy.bounded, htidy.nodup⟩
  obtain ⟨houtcome, hothers, hown, hpending⟩ := ha.processed packet
  rw [hheard a hcipher, htime, hsequence] at houtcome hown
  rw [htime] at hothers hpending
  rw [hmarker] at houtcome hown hpending
  rw [hand_of_parse hparse houtcome]
  exact ⟨(ha.process packet).2.trans hcipher, (ha.process packet).1, hothers, hown, hpending, rfl⟩

/-- Behind a packet without the marker, its frame goes on with the next number. -/
theorem Handed.resumed {content : FrameContent} {pool : Pool} {r r' : Assembler × List AccessUnit}
    (h : Handed p k time false content pool r r') : r'.1.resumed time (nth p.nextSequence (k + 1)) = content := by
  obtain ⟨g, hg, hgtime⟩ := h.pending rfl
  cases hfind : r'.1.find? time with
  | none => exact absurd (decide_eq_true hgtime) (List.find?_eq_none.1 hfind g hg)
  | some f =>
    obtain ⟨hmem, htime⟩ := of_find?_eq_some hfind
    obtain ⟨-, hcontent, hlast⟩ := h.own f hmem htime
    rw [resumed_of_some hfind, if_pos (by rw [hlast, Serial.nth_add_one]), hcontent]

end Assembler

namespace Sender

open Assembler (hand Tidy followsOn)

/-! ## What a failed attempt leaves behind -/

/-- No packet of the attempts `rest`, which begin at position `k`, goes on with a frame. -/
def Abandoned (start : Serial) (k : Nat) (rest : List Attempt) (f : Frame) : Prop :=
  ∀ before t after, rest = before ++ t :: after → t.unit.timestamp = f.timestamp → t.offers ≠ [] →
    nth start (k + (before.flatMap (·.offers)).length) ≠ f.lastSequence + 1

theorem Abandoned.next {start : Serial} {k : Nat} {t : Attempt} {rest : List Attempt} {f : Frame}
    (h : Abandoned start k (t :: rest) f) : Abandoned start (k + t.offers.length) rest f := by
  intro before t' after hrest htime hne
  have hnot := h (t :: before) t' after (congrArg (t :: ·) hrest) htime hne
  rw [List.flatMap_cons, List.length_append, ← Nat.add_assoc] at hnot
  exact hnot

/-- Of two attempts at one time, the packets are within one turn of the number circle. -/
def TwinsAreNear (attempts : List Attempt) : Prop :=
  ∀ before t between t' after, attempts = before ++ t :: (between ++ t' :: after) →
    t.unit.timestamp = t'.unit.timestamp → t.offers ≠ [] → t'.offers ≠ [] →
    ((t :: (between ++ [t'])).flatMap (·.offers)).length ≤ 65536

theorem TwinsAreNear.tail {t : Attempt} {rest : List Attempt} (h : TwinsAreNear (t :: rest)) : TwinsAreNear rest :=
  fun before t' between t'' after hrest => h (t :: before) t' between t'' after (congrArg (t :: ·) hrest)

theorem twinsAreNear_of_length_le {attempts : List Attempt} (h : (attempts.flatMap (·.offers)).length ≤ 65536) :
    TwinsAreNear attempts := by
  rintro before t between t' after rfl - - -
  refine Nat.le_trans ?_ h
  simp only [List.flatMap_append, List.flatMap_cons, List.flatMap_nil, List.length_append, List.append_nil]
  omega

/-- **The number of the datagram that was refused is gone**, so later attempts do not go on with what was accepted. -/
theorem abandoned_of_failed {start : Serial} {k i : Nat} {t : Attempt} {rest : List Attempt} {f : Frame}
    (hnear : TwinsAreNear (t :: rest)) (htime : f.timestamp = t.unit.timestamp)
    (hlast : f.lastSequence = nth start (k + i)) (hi : i + 2 = t.offers.length) :
    Abandoned start (k + t.offers.length) rest f := by
  rintro before t' after rfl htime' hne
  have hoffers : t.offers ≠ [] := by
    rintro hnil
    rw [hnil] at hi
    cases hi
  have hclose := hnear [] t before t' after rfl (htime.symm.trans htime'.symm) hoffers hne
  have hpos := List.length_pos_iff.2 hne
  simp only [List.flatMap_append, List.flatMap_cons, List.flatMap_nil, List.length_append, List.append_nil] at hclose
  rw [hlast, Serial.nth_add_one, ne_eq, Serial.nth_inj start (by omega) (by omega)]
  omega

/-! ## Within an attempt -/

/-- An assembler that has heard the first `j` packets of an attempt at position `k`, when its frames were `old` ones and
`shown` had come out before. -/
structure Amid (p : Packetizer) (k : Nat) (u : AccessUnit) (old : List Frame) (shown : List AccessUnit) (j : Nat)
    (r : Assembler × List AccessUnit) : Prop where
  cipher : r.1.cipher = p.cipher
  tidy : r.1.Tidy
  frames : ∀ f ∈ r.1.frames,
    f ∈ old ∨ f.timestamp = u.timestamp ∧ ∃ i, i + 1 = j ∧ f.lastSequence = nth p.nextSequence (k + i)
  content : r.1.resumed u.timestamp (nth p.nextSequence (k + j)) = .broken ∨
    r.1.resumed u.timestamp (nth p.nextSequence (k + j)) = .ofDrafts ((p.drafts u).take j)
  shown : r.2 = shown

variable {p : Packetizer} {k j : Nat} {u : AccessUnit} {old : List Frame} {shown : List AccessUnit}
  {r : Assembler × List AccessUnit} {d : Draft} {e : Pool × Bytes}

/-- What a frame holds that has heard one more packet is still all there has been, or nothing. -/
theorem Amid.hear (h : Amid p k u old shown j r) (hd : (p.drafts u)[j]? = some d) {content : FrameContent}
    (hcontent : (r.1.resumed u.timestamp (nth p.nextSequence (k + j))).hear d.payload = content) :
    content = .broken ∨ content = .ofDrafts ((p.drafts u).take (j + 1)) := by
  subst hcontent
  rcases h.content with hbroken | hsoFar
  · exact .inl (hbroken ▸ FrameContent.hear_broken _)
  · rw [hsoFar, List.take_add_one, hd]
    exact .inr (FrameContent.ofDrafts_append_singleton _ _).symm

theorem Amid.next (h : Amid p k u old shown j r) (hd : (p.drafts u)[j]? = some d) (hm : d.marker = false)
    (hb : p.Bears (k + j) u.timestamp d e.2) : Amid p k u old shown (j + 1) (hand r e) := by
  have hh := Assembler.handed h.cipher h.tidy hb
  rw [hm] at hh
  refine ⟨hh.cipher, hh.tidy, fun f hf => ?_, ?_, ?_⟩
  · by_cases htime : f.timestamp = u.timestamp
    · exact .inr ⟨htime, j, rfl, (hh.own f hf htime).2.2⟩
    · exact .inl ((h.frames f (hh.others f hf htime)).resolve_right fun hown => htime hown.1)
  · rw [← Nat.add_assoc, hh.resumed]
    exact h.hear hd rfl
  · rw [hh.shown, if_neg Bool.false_ne_true, Pool.granted_none, h.shown]
    exact List.append_nil _

theorem Amid.run {es : List (Pool × Bytes)} (h : Amid p k u old shown 0 r)
    (hbears : ∀ j e, es[j]? = some e → ∃ d, (p.drafts u)[j]? = some d ∧ p.Bears (k + j) u.timestamp d e.2) :
    ∀ j, j ≤ es.length → j < (p.drafts u).length → Amid p k u old shown j ((es.take j).foldl hand r)
  | 0, _, _ => h
  | j + 1, hj, hlt => by
    obtain ⟨d, hd, hb⟩ := hbears j es[j] (List.getElem?_eq_getElem hj)
    have hmarker : d.marker = false := by
      refine Bool.eq_false_iff.2 fun hm => ?_
      have hend := (Plan.marker_markLast hd).1 hm
      rw [← Plan.length_markLast] at hend
      exact absurd hend (Nat.ne_of_lt hlt)
    rw [List.take_add_one, List.getElem?_eq_getElem hj, List.foldl_append]
    exact (Amid.run h hbears j (Nat.le_of_succ_le hj) (Nat.lt_of_succ_lt hlt)).next hd hmarker hb

/-- An assembler that has heard a whole attempt: nothing of it is in the making any more. -/
structure Over (p : Packetizer) (u : AccessUnit) (old : List Frame) (shown : List AccessUnit)
    (r : Assembler × List AccessUnit) : Prop where
  cipher : r.1.cipher = p.cipher
  tidy : r.1.Tidy
  frames : ∀ f ∈ r.1.frames, f ∈ old
  shown : ∃ out, r.2 = shown ++ out ∧ out.Sublist [u.delivered]

theorem unit?_ofDrafts_drafts {u : AccessUnit} (hne : p.drafts u ≠ [])
    (hcarry : ∀ nal ∈ AnnexB.nalUnits u.bytes, Nal.isCarriable nal = true) :
    (FrameContent.ofDrafts (p.drafts u)).unit? u.timestamp = some u.delivered := by
  have hnals : AnnexB.nalUnits u.bytes ≠ [] := by
    intro hnil
    rw [Packetizer.drafts, Plan.drafts, hnil] at hne
    exact hne rfl
  rw [FrameContent.ofDrafts, Packetizer.drafts, Plan.drafts, Plan.payload_markLast,
    FrameContent.hear_unit p.budget_piece_pos p.budget_whole_pos _ [] hcarry, List.append_nil,
    FrameContent.unit?, FrameContent.finished?_intact hnals]
  rfl

/-- **The last packet of a unit** ends its frame, and the unit comes out whole or not at all. -/
theorem Amid.last (h : Amid p k u old shown j r) (hd : (p.drafts u)[j]? = some d) (hm : d.marker = true)
    (hb : p.Bears (k + j) u.timestamp d e.2) (hcarry : ∀ nal ∈ AnnexB.nalUnits u.bytes, Nal.isCarriable nal = true) :
    Over p u old shown (hand r e) := by
  have hh := Assembler.handed h.cipher h.tidy hb
  have hcontent := h.hear hd rfl
  rw [hm] at hh
  refine ⟨hh.cipher, hh.tidy, fun f hf => ?_, _, h.shown ▸ hh.shown, ?_⟩
  · by_cases htime : f.timestamp = u.timestamp
    · cases (hh.own f hf htime).1
    · exact (h.frames f (hh.others f hf htime)).resolve_right fun hown => htime hown.1
  · rw [if_pos rfl]
    rcases hcontent with hbroken | hwhole
    · rw [hbroken, FrameContent.unit?_broken, Pool.granted_none]
      exact List.nil_sublist _
    · have hend : j + 1 = (p.drafts u).length := (Plan.marker_markLast hd).1 hm ▸ (Plan.length_markLast _).symm
      have hne : p.drafts u ≠ [] := List.length_pos_iff.1 (hend ▸ Nat.succ_pos j)
      rw [hwhole, hend, List.take_length, unit?_ofDrafts_drafts hne hcarry, Pool.granted]
      split
      · exact List.Sublist.refl _
      · exact List.nil_sublist _

theorem Amid.whole {es : List (Pool × Bytes)} (h : Amid p k u old shown 0 r)
    (hbears : ∀ j e, es[j]? = some e → ∃ d, (p.drafts u)[j]? = some d ∧ p.Bears (k + j) u.timestamp d e.2)
    (hcarry : ∀ nal ∈ AnnexB.nalUnits u.bytes, Nal.isCarriable nal = true)
    (hlength : es.length = (p.drafts u).length) (hne : es ≠ []) : Over p u old shown (es.foldl hand r) := by
  have hpos := List.length_pos_iff.2 hne
  have hlast : es.length - 1 < es.length := Nat.sub_lt hpos Nat.one_pos
  obtain ⟨d, hd, hb⟩ := hbears (es.length - 1) _ (List.getElem?_eq_getElem hlast)
  have hmarker : d.marker = true := by
    refine (Plan.marker_markLast hd).2 ?_
    rw [← Plan.length_markLast]
    exact (Nat.sub_add_cancel hpos).trans hlength
  have hamid := h.run hbears (es.length - 1) (Nat.sub_le _ _) (hlength ▸ hlast)
  have hfold : es.foldl hand r = hand ((es.take (es.length - 1)).foldl hand r) es[es.length - 1] := by
    conv => lhs; rw [← List.dropLast_concat_getLast hne, List.foldl_append, List.dropLast_eq_take]
    rw [List.getLast_eq_getElem]
    rfl
  rw [hfold]
  exact hamid.last hd hmarker hb hcarry

/-! ## From attempt to attempt -/

/-- An assembler between attempts: none of its frames will be gone on with. -/
structure Settled (p : Packetizer) (k : Nat) (rest : List Attempt) (a : Assembler) : Prop where
  cipher : a.cipher = p.cipher
  tidy : a.Tidy
  abandoned : ∀ f ∈ a.frames, Abandoned p.nextSequence k rest f

theorem Settled.amid {t : Attempt} {rest : List Attempt} (h : Settled p k (t :: rest) r.1) (hne : t.offers ≠ []) :
    Amid p k t.unit r.1.frames r.2 0 r := by
  refine ⟨h.cipher, h.tidy, fun f hf => .inl hf, ?_, rfl⟩
  cases hfind : r.1.find? t.unit.timestamp with
  | some f =>
    obtain ⟨hmem, htime⟩ := Assembler.of_find?_eq_some hfind
    have hnot := h.abandoned f hmem [] t rest rfl htime.symm hne
    exact .inl ((Assembler.resumed_of_some hfind).trans (if_neg hnot))
  | none =>
    rw [Assembler.resumed_of_none hfind]
    split
    · exact .inr rfl
    · exact .inl rfl

/-- **One attempt.**  What comes out is its unit, and only if it has succeeded; what it leaves in the making is
abandoned. -/
theorem Settled.attempt {t : Attempt} {rest : List Attempt} (h : Settled p k (t :: rest) r.1) (hruns : t.Runs p k)
    (hnear : TwinsAreNear (t :: rest)) (hcarry : ∀ nal ∈ AnnexB.nalUnits t.unit.bytes, Nal.isCarriable nal = true)
    {es : List (Pool × Bytes)} (hes : es.map Prod.snd = accepted t.offers) :
    Settled p (k + t.offers.length) rest (es.foldl hand r).1 ∧
      ∃ out, (es.foldl hand r).2 = r.2 ++ out ∧
        out.Sublist (([t].filter (·.fault.isNone)).map (·.unit.delivered)) := by
  have hlength : es.length = (accepted t.offers).length := by rw [← hes, List.length_map]
  have hbears : ∀ j e, es[j]? = some e →
      ∃ d, (p.drafts t.unit)[j]? = some d ∧ p.Bears (k + j) t.unit.timestamp d e.2 := fun j e he =>
    hruns.bears j e.2 (by rw [← hes, List.getElem?_map, he]; rfl)
  have hold : ∀ f ∈ r.1.frames, Abandoned p.nextSequence (k + t.offers.length) rest f := fun f hf =>
    (h.abandoned f hf).next
  rcases hruns.outcome with ⟨hok, hall, hdrafts⟩ | ⟨hfailed, hrefused, hdrafts⟩
  · by_cases hne : es = []
    · rw [hne, List.foldl_nil]
      exact ⟨⟨h.cipher, h.tidy, hold⟩, [], (List.append_nil _).symm, List.nil_sublist _⟩
    · have hoffers : t.offers ≠ [] := List.length_pos_iff.1 (hall ▸ hlength ▸ List.length_pos_iff.2 hne)
      obtain ⟨hcipher, htidy, hframes, out, hshown, hout⟩ :=
        (h.amid hoffers).whole hbears hcarry (hlength.trans (hall.trans hdrafts)) hne
      refine ⟨⟨hcipher, htidy, fun f hf => hold f (hframes f hf)⟩, out, hshown, ?_⟩
      simpa [hok] using hout
  · have hoffers : t.offers ≠ [] := List.length_pos_iff.1 (by omega)
    have hamid := (h.amid hoffers).run hbears es.length (Nat.le_refl _) (by omega)
    rw [List.take_length] at hamid
    refine ⟨⟨hamid.cipher, hamid.tidy, fun f hf => ?_⟩, [], hamid.shown.trans (List.append_nil _).symm,
      List.nil_sublist _⟩
    rcases hamid.frames f hf with hf | ⟨htime, i, hi, hlast⟩
    · exact hold f hf
    · exact abandoned_of_failed hnear htime hlast (by omega)

/-- **Over a run of attempts.** -/
theorem Settled.run : ∀ {attempts : List Attempt} {k : Nat} {r : Assembler × List AccessUnit}
    {es : List (Pool × Bytes)},
    Settled p k attempts r.1 → AllRun p k attempts → TwinsAreNear attempts →
    (∀ t ∈ attempts, ∀ nal ∈ AnnexB.nalUnits t.unit.bytes, Nal.isCarriable nal = true) →
    es.map Prod.snd = attempts.flatMap (accepted ·.offers) →
    ∃ out, (es.foldl hand r).2 = r.2 ++ out ∧
      out.Sublist ((attempts.filter (·.fault.isNone)).map (·.unit.delivered))
  | [], _, r, es, _, _, _, _, hes => by
    rw [List.map_eq_nil_iff.1 hes]
    exact ⟨[], (List.append_nil _).symm, List.nil_sublist _⟩
  | t :: rest, k, r, es, h, hruns, hnear, hcarry, hes => by
    obtain ⟨first, others, rfl, hfirst, hothers⟩ := List.map_eq_append_iff.1 hes
    obtain ⟨hsettled, out, hshown, hout⟩ := h.attempt hruns.1 hnear (hcarry t List.mem_cons_self) hfirst
    obtain ⟨more, hmore, hsublist⟩ :=
      hsettled.run hruns.2 hnear.tail (fun t ht => hcarry t (List.mem_cons_of_mem _ ht)) hothers
    refine ⟨out ++ more, ?_, ?_⟩
    · rw [List.foldl_append, hmore, hshown, List.append_assoc]
    · rw [show t :: rest = [t] ++ rest from rfl, List.filter_append, List.map_append]
      exact hout.append hsublist

theorem unit_mem_of_attempts {σ : Type} (sink : Sink σ) : ∀ (units : List AccessUnit) (x : Sender × σ),
    ∀ t ∈ attempts sink x units, t.unit ∈ units
  | [], _, _, h => absurd h List.not_mem_nil
  | u :: rest, x, t, h => by
    rcases List.mem_cons.1 h with rfl | h
    · exact List.mem_cons_self
    · exact List.mem_cons_of_mem _ (unit_mem_of_attempts sink rest _ t h)

/-- **A failed call never spoils a later one.**  A sender with a sound cipher is made to send units, some of them
perhaps again or at the time of another one, and the sink refuses what it likes.  When the datagrams that were accepted
reach a new assembler in order, whatever buffers are free, then what comes out is, in order, units whose own call has
succeeded, each in its normal form; provided the packets of any two attempts at one time are within one turn of the
number circle. -/
theorem emits_only_completed {σ : Type} {s : Sender} (hc : s.packetizer.cipher.IsSound) (sink : Sink σ) (st : σ)
    {units : List AccessUnit} (hcarry : ∀ u ∈ units, ∀ nal ∈ AnnexB.nalUnits u.bytes, Nal.isCarriable nal = true)
    (hnear : TwinsAreNear (attempts sink (s, st) units)) (pool : Pool) (limit : Nat) {es : List (Pool × Bytes)}
    (hes : es.map Prod.snd = (attempts sink (s, st) units).flatMap (accepted ·.offers)) :
    let emitted := ((Assembler.create s.packetizer.cipher pool limit).feed es).2
    emitted.Sublist (((attempts sink (s, st) units).filter (·.fault.isNone)).map (·.unit.delivered)) ∧
      ∀ e ∈ emitted, ∃ t ∈ attempts sink (s, st) units, t.fault = none ∧ e.bytes = AnnexB.normalize t.unit.bytes := by
  intro emitted
  have hsettled : Settled s.packetizer 0 (attempts sink (s, st) units)
      (Assembler.create s.packetizer.cipher pool limit) := ⟨rfl, .create _ _ _, fun f hf => by cases hf⟩
  obtain ⟨out, hshown, hout⟩ := hsettled.run (r := (Assembler.create s.packetizer.cipher pool limit, []))
    (allRun_attempts hc sink units (s, st) s.packetizer.continues_self) hnear
    (fun t ht => hcarry t.unit (unit_mem_of_attempts sink units (s, st) t ht)) hes
  have hemitted : emitted = out := hshown
  rw [hemitted]
  refine ⟨hout, fun e he => ?_⟩
  obtain ⟨t, ht, rfl⟩ := List.mem_map.1 (hout.subset he)
  obtain ⟨ht, hnone⟩ := List.mem_filter.1 ht
  exact ⟨t, ht, Option.isNone_iff_eq_none.1 hnone, rfl⟩

/-- A unit of two packets. -/
def paired : AccessUnit := .assembled 0 [[0x67, 0x42], [0x65, 0x88]]

/-- Of three attempts at one unit the first is cut in half.  The second succeeds but is lost at the half that the first
has left; the third comes out. -/
theorem emits_only_completed_retried : ∃ s, create {} .identity 7 0 = .ok s ∧
    let tried := attempts picky (s, 0) [paired, paired, paired]
    let es := (tried.flatMap (accepted ·.offers)).map fun d => (({ limit := 1 } : Pool), d)
    let emitted := ((Assembler.create s.packetizer.cipher { limit := 1 } 32).feed es).2
    tried.map (·.fault.isNone) = [false, true, true] ∧ emitted.map AccessUnit.bytes = [paired.bytes] ∧
      ∀ e ∈ emitted, ∃ t ∈ tried, t.fault = none ∧ e.bytes = AnnexB.normalize t.unit.bytes := by
  have hs : create {} .identity 7 0 = .ok _ := rfl
  refine ⟨_, hs, by decide +kernel, by decide +kernel, ?_⟩
  refine (emits_only_completed ?_ picky 0 ?_ (twinsAreNear_of_length_le ?_) _ 32 ?_).2
  · exact Cipher.identity_isSound
  · decide +kernel
  · decide +kernel
  · rw [List.map_map]
    exact List.map_id _

end Sender
end VideoTransport
