import VideoTransport.Proofs.Dialogue
/-!
# Crossing — when both sides make an offer

Two sides that answer each other's offers make at most one offer each, for the codec of both.  As long as there have
not been offers on their way in both directions at once, the side that offered last is on the way to an established
session (`Calm`).  From then on each side drops its own offer when it hears the other one, and takes the answer to it
for one that nobody waits for (`Overtaken`).  So when all is quiet, a session is established if and only if the offers
have not crossed (`established_iff_not_crossed`).
-/
namespace VideoTransport
namespace Session

namespace Side

theorem other_other (x : Side) : x.other.other = x := by cases x <;> rfl

theorem eq_or_eq_other (x z : Side) : x = z ∨ x = z.other := by
  cases x <;> cases z <;> first | exact .inl rfl | exact .inr rfl

end Side

/-- Whether a move is an offer of a side. -/
def Move.isOfferOf (x : Side) : Move → Bool
  | .offer side _ => side = x
  | _ => false

/-- How many offers a side makes. -/
def made (moves : List Move) (x : Side) : Nat := moves.countP (Move.isOfferOf x)

theorem made_append_singleton (moves : List Move) (m : Move) (x : Side) :
    made (moves ++ [m]) x = made moves x + if m.isOfferOf x then 1 else 0 := by
  rw [made, List.countP_append, List.countP_singleton]
  rfl

/-- Each side makes at most one offer, and for this codec. -/
structure OneEach (codec : String) (moves : List Move) : Prop where
  once : ∀ x, made moves x ≤ 1
  codec : ∀ o ∈ moves.filterMap Move.offer?, o.codec = codec

theorem OneEach.init {codec : String} {moves : List Move} {m : Move} (h : OneEach codec (moves ++ [m])) :
    OneEach codec moves where
  once x := Nat.le_trans (by rw [made_append_singleton]; exact Nat.le_add_right _ _) (h.once x)
  codec o ho := h.codec o (by rw [List.filterMap_append]; exact List.mem_append_left _ ho)

/-- A side that makes an offer has made none before. -/
theorem OneEach.made_eq_zero {codec : String} {moves : List Move} {side : Side} {s : SessionSettings}
    (h : OneEach codec (moves ++ [.offer side s])) : made moves side = 0 := by
  have honce := h.once side
  rw [made_append_singleton, Move.isOfferOf, if_pos (decide_eq_true rfl)] at honce
  omega

theorem OneEach.codec_last {codec : String} {moves : List Move} {side : Side} {s : SessionSettings}
    (h : OneEach codec (moves ++ [.offer side s])) : s.codec = codec :=
  h.codec (Manager.offerOf s) (by rw [List.filterMap_append]; exact List.mem_append_right _ List.mem_cons_self)

namespace Manager

theorem state_acceptOffer {m : Manager} {o : Offer} (h : o.codec = m.codec) :
    ((m.receive (.offer o)).acceptOffer o (.ok ())).2.state = .answerSent := by
  have haccepted : ((m.receive (.offer o)).answerTo o).accepted = true := decide_eq_true h
  rw [acceptOffer]
  exact if_pos haccepted

end Manager

namespace Pair

/-- Offers are on their way in both directions. -/
def OffersMeet (p : Pair) : Prop := ∀ x, ∃ o, Message.offer o ∈ p.pending x

/-- Offers have met during a run. -/
def Crossed (p : Pair) (moves : List Move) : Prop := ∃ before, before <+: moves ∧ (p.after before).OffersMeet

theorem crossed_append_singleton (p : Pair) (moves : List Move) (m : Move) :
    p.Crossed (moves ++ [m]) ↔ p.Crossed moves ∨ ((p.after moves).move m).OffersMeet := by
  rw [← after_append_singleton]
  constructor
  · rintro ⟨before, hbefore, hmeet⟩
    rcases List.prefix_concat_iff.1 hbefore with rfl | hbefore
    · exact .inr hmeet
    · exact .inl ⟨before, hbefore, hmeet⟩
  · rintro (⟨before, hbefore, hmeet⟩ | hmeet)
    · exact ⟨before, hbefore.trans (List.prefix_append _ _), hmeet⟩
    · exact ⟨_, List.prefix_refl _, hmeet⟩

/-- Both sides answer every offer once, and accept those for this codec. -/
structure Willing (p : Pair) (codec : String) : Prop where
  codec : ∀ x, (p.manager x).codec = codec
  answering : ∀ x, (p.endpoint x).answering = 1

theorem Willing.after {p : Pair} {codec : String} (h : p.Willing codec) (moves : List Move) :
    (p.after moves).Willing codec where
  codec x := (p.after_keeps moves x).1.trans (h.codec x)
  answering x := (p.after_keeps moves x).2.trans (h.answering x)

/-- A willing side accepts the offer that it hears. -/
theorem Willing.accepts {p p' : Pair} {codec : String} {side : Side} {o : Offer} {left : List Message}
    (h : p.Willing codec) (ho : o.codec = codec)
    (changes : Changes p side (((p.manager side).receive (.offer o)).acceptTimes o (p.endpoint side).answering) left
      (List.replicate (p.endpoint side).answering (.answer ((p.manager side).answerTo o))) p') :
    (p'.manager side).state = .answerSent ∧
      ∃ a : Answer, a.accepted = true ∧ p'.pending side.other = p.pending side.other ++ [.answer a] := by
  have hcodec : o.codec = (p.manager side).codec := ho.trans (h.codec side).symm
  rw [h.answering side] at changes
  refine ⟨?_, (p.manager side).answerTo o, decide_eq_true hcodec, changes.pending_other⟩
  rw [changes.manager]
  exact Manager.state_acceptOffer hcodec

/-! ## Before offers meet -/

/-- Where two sides are as long as their offers have not met; `z` is the side that offered last. -/
inductive Calm (p : Pair) (codec : String) (made : Side → Nat) : Prop
  | silent (pending : ∀ x, p.pending x = []) (hmade : ∀ x, made x = 0)
  /-- The offer is on its way, perhaps behind an answer to an earlier one of the other side. -/
  | calling (z : Side) {o : Offer} (ho : o.codec = codec) (hmade : made z ≠ 0)
      (state : (p.manager z).state = .offerSent) (back : p.pending z = [])
      (forth : p.pending z.other = [.offer o] ∨ made z.other ≠ 0 ∧ ∃ a, p.pending z.other = [.answer a, .offer o])
  | answered (z : Side) {a : Answer} (ha : a.accepted = true) (hmade : made z ≠ 0)
      (state : (p.manager z).state = .offerSent) (state_other : (p.manager z.other).state = .answerSent)
      (back : p.pending z = [.answer a]) (forth : p.pending z.other = [])
  | agreed (z : Side) (hmade : made z ≠ 0) (state : (p.manager z).state = .established)
      (state_other : (p.manager z.other).state = .answerSent) (back : p.pending z = []) (forth : p.pending z.other = [])

theorem Calm.of_eq {p p' : Pair} {codec : String} {made : Side → Nat} (hmanager : ∀ x, p'.manager x = p.manager x)
    (hpending : ∀ x, p'.pending x = p.pending x) (h : Calm p codec made) : Calm p' codec made := by
  cases h with
  | silent pending hmade => exact .silent (fun x => (hpending x).trans (pending x)) hmade
  | calling z ho hmade state back forth =>
    rw [← hmanager] at state
    rw [← hpending] at back forth
    exact .calling z ho hmade state back forth
  | answered z ha hmade state state_other back forth =>
    rw [← hmanager] at state state_other
    rw [← hpending] at back forth
    exact .answered z ha hmade state state_other back forth
  | agreed z hmade state state_other back forth =>
    rw [← hmanager] at state state_other
    rw [← hpending] at back forth
    exact .agreed z hmade state state_other back forth

theorem Calm.not_offersMeet {p : Pair} {codec : String} {made : Side → Nat} (h : Calm p codec made) :
    ¬ p.OffersMeet := by
  intro hmeet
  cases h with
  | silent pending _ =>
    obtain ⟨o, ho⟩ := hmeet .a
    rw [pending] at ho
    cases ho
  | calling z _ _ _ back _ | agreed z _ _ _ back _ =>
    obtain ⟨o, ho⟩ := hmeet z
    rw [back] at ho
    cases ho
  | answered z _ _ _ _ _ forth =>
    obtain ⟨o, ho⟩ := hmeet z.other
    rw [forth] at ho
    cases ho

/-! ## After offers have met -/

/-- A side whose offer has met one of the other side: that one is still on its way, or the side has answered it; what
follows are answers. -/
inductive Overtaken (codec : String) (m : Manager) : List Message → Prop
  | calling {o : Offer} {answers : List Message} (state : m.state = .offerSent) (ho : o.codec = codec)
      (hanswers : ∀ x ∈ answers, ∃ a, x = .answer a) : Overtaken codec m (.offer o :: answers)
  | answered {answers : List Message} (state : m.state = .answerSent)
      (hanswers : ∀ x ∈ answers, ∃ a, x = .answer a) : Overtaken codec m answers

theorem Overtaken.append {codec : String} {m : Manager} {pending : List Message} (h : Overtaken codec m pending)
    (a : Answer) : Overtaken codec m (pending ++ [.answer a]) := by
  have hmore {answers : List Message} (hanswers : ∀ x ∈ answers, ∃ a, x = .answer a) :
      ∀ x ∈ answers ++ [Message.answer a], ∃ a, x = .answer a := by
    intro x hx
    rcases List.mem_append.1 hx with hx | hx
    · exact hanswers x hx
    · exact ⟨a, List.mem_singleton.1 hx⟩
  cases h with
  | calling state ho hanswers => exact .calling state ho (hmore hanswers)
  | answered state hanswers => exact .answered state (hmore hanswers)

theorem Overtaken.of_offer {codec : String} {m : Manager} {o : Offer} {left : List Message}
    (h : Overtaken codec m (.offer o :: left)) : o.codec = codec ∧ ∀ x ∈ left, ∃ a, x = .answer a := by
  cases h with
  | calling _ ho hanswers => exact ⟨ho, hanswers⟩
  | answered _ hanswers =>
    obtain ⟨a, ha⟩ := hanswers _ List.mem_cons_self
    cases ha

theorem Overtaken.of_answer {codec : String} {m : Manager} {a : Answer} {left : List Message}
    (h : Overtaken codec m (.answer a :: left)) : m.state = .answerSent ∧ ∀ x ∈ left, ∃ a, x = .answer a := by
  cases h with
  | answered state hanswers => exact ⟨state, fun x hx => hanswers x (List.mem_cons_of_mem _ hx)⟩

/-- Both sides have made their offers, and these have met. -/
def Parted (p : Pair) (codec : String) (made : Side → Nat) : Prop :=
  ∀ x, made x ≠ 0 ∧ Overtaken codec (p.manager x) (p.pending x)

theorem Parted.of_eq {p p' : Pair} {codec : String} {made : Side → Nat}
    (hmanager : ∀ x, p'.manager x = p.manager x) (hpending : ∀ x, p'.pending x = p.pending x)
    (h : Parted p codec made) : Parted p' codec made := by
  intro x
  rw [hmanager, hpending]
  exact h x

/-! ## Steps -/

section Steps

variable {p : Pair} {codec : String} {moves : List Move}

theorem made_of_no_offer (moves : List Move) {m : Move} (hm : m.offer? = none) : made (moves ++ [m]) = made moves := by
  funext x
  rw [made_append_singleton]
  cases m with
  | offer side s => cases hm
  | askKeyFrame side | deliver side => rfl

/-- An offer is the first of its side: either nothing is on its way to that side but what it will hear anyway, or the
offer meets the one of the other side. -/
theorem Calm.offer {p' : Pair} {side : Side} {s : SessionSettings} (h : Calm p codec (made moves))
    (heach : OneEach codec (moves ++ [.offer side s]))
    (changes : Changes p side ((p.manager side).createOffer s (.ok ())).2 (p.pending side)
      [.offer (Manager.offerOf s)] p') :
    Calm p' codec (made (moves ++ [.offer side s])) ∨
      p'.OffersMeet ∧ Parted p' codec (made (moves ++ [.offer side s])) := by
  have hfirst := heach.made_eq_zero
  have hcodec : (Manager.offerOf s).codec = codec := heach.codec_last
  have hside : made (moves ++ [.offer side s]) side ≠ 0 := by
    rw [made_append_singleton, Move.isOfferOf, if_pos (decide_eq_true rfl)]
    exact Nat.succ_ne_zero _
  have hkeeps {x : Side} (hx : made moves x ≠ 0) : made (moves ++ [.offer side s]) x ≠ 0 := by
    rw [made_append_singleton]
    omega
  have hstate : (p'.manager side).state = .offerSent := by
    rw [changes.manager]
    rfl
  have hnext {z : Side} (hz : made moves z ≠ 0) : z = side.other :=
    (Side.eq_or_eq_other z side).resolve_left fun heq => hz (heq ▸ hfirst)
  cases h with
  | silent pending _ =>
    refine .inl (.calling side hcodec hside hstate (changes.pending.trans (pending side)) (.inl ?_))
    rw [changes.pending_other, pending]
    rfl
  | calling z ho hmade state back forth =>
    obtain rfl := hnext hmade
    rw [Side.other_other] at forth
    have hmine := forth.resolve_right fun h => h.1 hfirst
    have hsent : p'.pending side.other = [.offer (Manager.offerOf s)] := by
      rw [changes.pending_other, back]
      rfl
    have hother : (p'.manager side.other).state = .offerSent := by rw [changes.manager_other, state]
    have hpending := changes.pending.trans hmine
    refine .inr ⟨fun x => ?_, fun x => ?_⟩
    · rcases Side.eq_or_eq_other x side with rfl | rfl
      · exact ⟨_, hpending ▸ List.mem_cons_self⟩
      · exact ⟨_, hsent ▸ List.mem_cons_self⟩
    · rcases Side.eq_or_eq_other x side with rfl | rfl
      · exact ⟨hside, hpending ▸ .calling hstate ho nofun⟩
      · exact ⟨hkeeps hmade, hsent ▸ .calling hother hcodec nofun⟩
  | @answered z a ha hmade state state_other back forth =>
    obtain rfl := hnext hmade
    rw [Side.other_other] at forth
    have hsent : p'.pending side.other = [.answer a, .offer (Manager.offerOf s)] := by
      rw [changes.pending_other, back]
      rfl
    exact .inl (.calling side hcodec hside hstate (changes.pending.trans forth) (.inr ⟨hkeeps hmade, a, hsent⟩))
  | agreed z hmade state state_other back forth =>
    obtain rfl := hnext hmade
    rw [Side.other_other] at forth
    refine .inl (.calling side hcodec hside hstate (changes.pending.trans forth) (.inl ?_))
    rw [changes.pending_other, back]
    rfl

/-- An offer that is heard is accepted. -/
theorem Calm.approached {p' : Pair} {made : Side → Nat} {side : Side} {o : Offer} {left : List Message}
    (h : Calm p codec made) (hwilling : p.Willing codec) (hpending : p.pending side = .offer o :: left)
    (changes : Changes p side (((p.manager side).receive (.offer o)).acceptTimes o (p.endpoint side).answering) left
      (List.replicate (p.endpoint side).answering (.answer ((p.manager side).answerTo o))) p') :
    Calm p' codec made := by
  cases h with
  | silent pending _ =>
    rw [pending] at hpending
    cases hpending
  | calling z ho hmade state back forth =>
    rcases Side.eq_or_eq_other side z with rfl | rfl
    · rw [back] at hpending
      cases hpending
    rcases forth with forth | ⟨-, a, forth⟩ <;> rw [forth] at hpending <;> cases hpending
    obtain ⟨hstate, a, ha, hsaid⟩ := hwilling.accepts ho changes
    have hother := changes.manager_other
    rw [Side.other_other] at hsaid hother
    rw [back] at hsaid
    exact .answered z ha hmade (by rw [hother, state]) hstate hsaid changes.pending
  | answered z _ _ _ _ back forth | agreed z _ _ _ back forth =>
    rcases Side.eq_or_eq_other side z with rfl | rfl
    · rw [back] at hpending
      cases hpending
    · rw [forth] at hpending
      cases hpending

/-- An answer that is heard establishes the session, or is passed over by an offer that follows it. -/
theorem Calm.replied {p' : Pair} {made : Side → Nat} {side : Side} {a : Answer} {left : List Message}
    (h : Calm p codec made) (hpending : p.pending side = .answer a :: left)
    (changes : Changes p side ((p.manager side).applyAnswer a) left [] p') : Calm p' codec made := by
  have hsaid := changes.pending_other
  have hother := changes.manager_other
  rw [List.append_nil] at hsaid
  cases h with
  | silent pending _ =>
    rw [pending] at hpending
    cases hpending
  | calling z ho hmade state back forth =>
    rcases Side.eq_or_eq_other side z with rfl | rfl
    · rw [back] at hpending
      cases hpending
    rw [Side.other_other] at hsaid hother
    rcases forth with forth | ⟨-, a, forth⟩ <;> rw [forth] at hpending <;> cases hpending
    exact .calling z ho hmade (by rw [hother, state]) (hsaid.trans back) (.inl changes.pending)
  | answered z ha hmade state state_other back forth =>
    rcases Side.eq_or_eq_other side z with rfl | rfl
    · rw [back] at hpending
      cases hpending
      have hstate : (p'.manager side).state = .established := by
        rw [changes.manager, Manager.applyAnswer, if_pos state, if_pos ha]
      exact .agreed side hmade hstate (by rw [hother, state_other]) changes.pending (hsaid.trans forth)
    · rw [forth] at hpending
      cases hpending
  | agreed z hmade state state_other back forth =>
    rcases Side.eq_or_eq_other side z with rfl | rfl
    · rw [back] at hpending
      cases hpending
    · rw [forth] at hpending
      cases hpending

/-- **As long as offers have not met**, a move keeps both sides in step, unless it makes offers meet. -/
theorem Calm.move {m : Move} (h : Calm p codec (made moves)) (hwilling : p.Willing codec)
    (heach : OneEach codec (moves ++ [m])) :
    Calm (p.move m) codec (made (moves ++ [m])) ∨
      (p.move m).OffersMeet ∧ Parted (p.move m) codec (made (moves ++ [m])) := by
  cases move_cases p m with
  | stood hm manager pending _ =>
    rw [made_of_no_offer moves hm]
    exact .inl (h.of_eq manager pending)
  | offered changes => exact h.offer heach changes
  | approached hpending changes =>
    rw [made_of_no_offer moves rfl]
    exact .inl (h.approached hwilling hpending changes)
  | replied hpending changes =>
    rw [made_of_no_offer moves rfl]
    exact .inl (h.replied hpending changes)

/-- **Once offers have met**, no move brings the sides together again. -/
theorem Parted.move {m : Move} (h : Parted p codec (made moves)) (hwilling : p.Willing codec)
    (heach : OneEach codec (moves ++ [m])) : Parted (p.move m) codec (made (moves ++ [m])) := by
  cases move_cases p m with
  | stood hm manager pending _ =>
    rw [made_of_no_offer moves hm]
    exact h.of_eq manager pending
  | @offered side s _ changes => exact absurd heach.made_eq_zero (h side).1
  | @approached side o left _ hpending changes =>
    rw [made_of_no_offer moves rfl]
    obtain ⟨ho, hleft⟩ := (hpending ▸ (h side).2).of_offer
    obtain ⟨hstate, a, -, hsaid⟩ := hwilling.accepts ho changes
    intro x
    refine ⟨(h x).1, ?_⟩
    rcases Side.eq_or_eq_other x side with rfl | rfl
    · rw [changes.pending]
      exact .answered hstate hleft
    · rw [changes.manager_other, hsaid]
      exact (h _).2.append a
  | @replied side a left _ hpending changes =>
    rw [made_of_no_offer moves rfl]
    obtain ⟨hstate, hleft⟩ := (hpending ▸ (h side).2).of_answer
    intro x
    refine ⟨(h x).1, ?_⟩
    rcases Side.eq_or_eq_other x side with rfl | rfl
    · have hnobody : ((p.manager x).applyAnswer a).state = .answerSent := by
        rw [Manager.applyAnswer, hstate]
        rfl
      rw [changes.pending, changes.manager]
      exact .answered hnobody hleft
    · rw [changes.manager_other, changes.pending_other, List.append_nil]
      exact (h _).2

end Steps

/-! ## Runs -/

theorem calm_or_parted {p : Pair} {codec : String} {moves : List Move} (hnew : p.IsNew) (hwilling : p.Willing codec)
    (heach : OneEach codec moves) :
    ¬ p.Crossed moves ∧ Calm (p.after moves) codec (made moves) ∨
      p.Crossed moves ∧ Parted (p.after moves) codec (made moves) := by
  induction moves using List.reverseRecOn with
  | nil =>
    have hsilent : Calm p codec (made []) := .silent (fun x => by rw [pending, hnew.texts x]; rfl) fun _ => rfl
    refine .inl ⟨?_, hsilent⟩
    rintro ⟨before, hbefore, hmeet⟩
    rw [List.prefix_nil.1 hbefore] at hmeet
    exact hsilent.not_offersMeet hmeet
  | append_singleton moves m ih =>
    rw [crossed_append_singleton, after_append_singleton]
    rcases ih heach.init with ⟨hcrossed, hcalm⟩ | ⟨hcrossed, hparted⟩
    · rcases hcalm.move (hwilling.after moves) heach with hcalm | ⟨hmeet, hparted⟩
      · exact .inl ⟨not_or.2 ⟨hcrossed, hcalm.not_offersMeet⟩, hcalm⟩
      · exact .inr ⟨.inr hmeet, hparted⟩
    · exact .inr ⟨.inl hcrossed, hparted.move (hwilling.after moves) heach⟩

/-- **Crossing offers.**  Two new sides of one codec answer each other's offers, and each makes at most one, for that
codec.  However their moves and the texts on their way interleave: when at least one offer has been made and neither an
offer nor an answer is on its way, a session is established on one of the sides if and only if there have never been
offers on their way in both directions.  If there have, both sides have answered and neither of them waits. -/
theorem established_iff_not_crossed {p : Pair} {codec : String} {moves : List Move} (hnew : p.IsNew)
    (hwilling : p.Willing codec) (heach : OneEach codec moves) (hany : ∃ x, made moves x ≠ 0)
    (hquiet : (p.after moves).IsQuiet) :
    ((∃ x, ((p.after moves).manager x).state = .established) ↔ ¬ p.Crossed moves) ∧
      (p.Crossed moves → ∀ x, ((p.after moves).manager x).state = .answerSent) := by
  rcases calm_or_parted hnew hwilling heach with ⟨hcrossed, hcalm⟩ | ⟨hcrossed, hparted⟩
  · refine ⟨iff_of_true ?_ hcrossed, fun h => absurd h hcrossed⟩
    cases hcalm with
    | silent _ hmade =>
      obtain ⟨x, hx⟩ := hany
      exact absurd (hmade x) hx
    | calling z _ _ _ _ forth =>
      rw [hquiet] at forth
      rcases forth with forth | ⟨-, a, forth⟩ <;> cases forth
    | answered z _ _ _ _ back _ =>
      rw [hquiet] at back
      cases back
    | agreed z _ state _ _ _ => exact ⟨z, state⟩
  · have hstate (x : Side) : ((p.after moves).manager x).state = .answerSent := by
      have hovertaken := (hparted x).2
      rw [hquiet] at hovertaken
      cases hovertaken with
      | answered state _ => exact state
    refine ⟨iff_of_false ?_ (not_not.2 hcrossed), fun _ => hstate⟩
    rintro ⟨x, hx⟩
    rw [hstate x] at hx
    cases hx

/-- Two new sides with the usual codec, each with one handler for offers. -/
def peers : Pair := { a := { manager := {}, answering := 1 }, b := { manager := {}, answering := 1 } }

theorem isNew_peers : peers.IsNew := ⟨fun | .a => rfl | .b => rfl, fun | .a => rfl | .b => rfl⟩

theorem willing_peers : peers.Willing "H264" := ⟨fun | .a => rfl | .b => rfl, fun | .a => rfl | .b => rfl⟩

/-- The second side makes its offer behind its answer to the first one. -/
def inTurn (s s' : SessionSettings) : List Move :=
  [.offer .a s, .deliver .b, .offer .b s', .deliver .a, .deliver .a, .deliver .b]

theorem after_inTurn {s s' : SessionSettings} (hs : s.codec = "H264") (hs' : s'.codec = "H264") :
    (peers.after (inTurn s s')).toA = [] ∧ (peers.after (inTurn s s')).toB = [] ∧
      ((peers.after (inTurn s s')).manager .b).state = .established := by
  simp [hs, hs', peers, inTurn, after, manager, move, deliver, endpoint, setEndpoint, send, Endpoint.offer,
    Endpoint.accept, Endpoint.answerTimes, Endpoint.handle, Manager.createOffer, Manager.offerOf, Manager.acceptOffer,
    Manager.answerTo, Manager.applyAnswer, Manager.receive, Manager.receiveText_toJson, Except.toOption]

theorem established_iff_not_crossed_inTurn :
    let moves := inTurn {} {}
    peers.IsNew ∧ peers.Willing "H264" ∧ OneEach "H264" moves ∧ (∃ x, made moves x ≠ 0) ∧ (peers.after moves).IsQuiet ∧
      (∃ x, ((peers.after moves).manager x).state = .established) ∧ ¬ peers.Crossed moves := by
  intro moves
  have hsettings : ({} : SessionSettings).codec = "H264" := rfl
  obtain ⟨htoA, htoB, hstate⟩ := after_inTurn hsettings hsettings
  have hquiet := isQuiet_of_empty htoA htoB
  have heach : OneEach "H264" moves := ⟨fun | .a => by decide | .b => by decide, by decide⟩
  have hany : ∃ x, made moves x ≠ 0 := ⟨.a, by decide⟩
  have hestablished : ∃ x, ((peers.after moves).manager x).state = .established := ⟨.b, hstate⟩
  have hcrossed := (established_iff_not_crossed isNew_peers willing_peers heach hany hquiet).1.1 hestablished
  exact ⟨isNew_peers, willing_peers, heach, hany, hquiet, hestablished, hcrossed⟩

/-- Both sides make their offers before either has heard the other one. -/
def atOnce (s s' : SessionSettings) : List Move :=
  [.offer .a s, .offer .b s', .deliver .b, .deliver .a, .deliver .a, .deliver .b]

theorem after_atOnce {s s' : SessionSettings} (hs : s.codec = "H264") (hs' : s'.codec = "H264") :
    (peers.after (atOnce s s')).toA = [] ∧ (peers.after (atOnce s s')).toB = [] ∧
      ((peers.after (atOnce s s')).manager .a).state = .answerSent ∧
      ((peers.after (atOnce s s')).manager .b).state = .answerSent := by
  simp [hs, hs', peers, atOnce, after, manager, move, deliver, endpoint, setEndpoint, send, Endpoint.offer,
    Endpoint.accept, Endpoint.answerTimes, Endpoint.handle, Manager.createOffer, Manager.offerOf, Manager.acceptOffer,
    Manager.answerTo, Manager.applyAnswer, Manager.receive, Manager.receiveText_toJson, Except.toOption]

/-- With offers made at once, all is quiet in the end, and neither side is established. -/
theorem unestablished_after_atOnce :
    let moves := atOnce {} {}
    peers.IsNew ∧ peers.Willing "H264" ∧ OneEach "H264" moves ∧ (∃ x, made moves x ≠ 0) ∧ (peers.after moves).IsQuiet ∧
      ¬ ∃ x, ((peers.after moves).manager x).state = .established := by
  intro moves
  have hsettings : ({} : SessionSettings).codec = "H264" := rfl
  obtain ⟨htoA, htoB, hstateA, hstateB⟩ := after_atOnce hsettings hsettings
  have heach : OneEach "H264" moves := ⟨fun | .a => by decide | .b => by decide, by decide⟩
  refine ⟨isNew_peers, willing_peers, heach, ⟨.a, by decide⟩, isQuiet_of_empty htoA htoB, ?_⟩
  rintro ⟨x, hx⟩
  cases x with
  | a => cases hstateA.symm.trans hx
  | b => cases hstateB.symm.trans hx

end Pair
end Session
end VideoTransport
