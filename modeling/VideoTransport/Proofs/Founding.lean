import VideoTransport.Proofs.Messages
import VideoTransport.Proofs.Standing
/-!
# Founding — how a session comes to be established

Of an act only its effect matters to the state of a manager (`Manager.state_perform`): whether an offer goes out or
comes in, or an answer does.  So the state tells the past (`Manager.after_iff_since`).  A session is established exactly
when an own offer has gone out, has waited without interruption for an answer that accepted it, and nothing has ended
the session since (`Manager.established_iff_founded`).
-/
namespace VideoTransport
namespace Session

/-! ## What acts amount to -/

inductive Effect where
  /-- An own offer goes out. -/
  | offers
  /-- An offer of the other side comes in. -/
  | isApproached
  /-- The answer to an offer of the other side goes out. -/
  | answers (o : Offer)
  /-- An answer of the other side comes in. -/
  | isAnswered (a : Answer)
  | nothing
  deriving DecidableEq, Repr

namespace Effect

/-- Whether an offer that waits for its answer waits on. -/
def letsWait : Effect → Bool
  | offers | nothing => true
  | _ => false

/-- Whether an established session stays so. -/
def letsStand : Effect → Bool
  | isAnswered _ | nothing => true
  | _ => false

end Effect

namespace Act

/-- What fails to be sent, a key frame request and a text that is no message have no effect. -/
def effect : Act → Effect
  | .offer _ (.ok _) => .offers
  | .accept o (.ok _) => .answers o
  | .apply a => .isAnswered a
  | .hear raw => match Message.parse raw with
    | .ok (.offer _) => .isApproached
    | .ok (.answer a) => .isAnswered a
    | _ => .nothing
  | _ => .nothing

theorem effect_hear_toJson (m : Message) : (Act.hear m.toJson).effect = match m with
    | .offer _ => .isApproached
    | .answer a => .isAnswered a
    | .keyFrameRequest => .nothing := by
  have hparse : Message.parse m.toJson = .ok m := m.parse_ofList_write
  rw [effect, hparse]
  cases m <;> rfl

theorem effect_eq_offers_iff (act : Act) : act.effect = .offers ↔ ∃ s, act = .offer s (.ok ()) := by
  constructor
  · intro h
    unfold effect at h
    split at h
    · exact ⟨_, rfl⟩
    · cases h
    · cases h
    · split at h <;> cases h
    · cases h
  · rintro ⟨s, rfl⟩
    rfl

end Act

namespace Manager

/-- **The state after an act**, by the effect of the act. -/
theorem state_perform (m : Manager) (act : Act) :
    (m.perform act).state = match act.effect with
      | .offers => .offerSent
      | .isApproached => .offerReceived
      | .answers o => if o.codec = m.codec then .answerSent else .idle
      | .isAnswered a => if m.state = .offerSent then (if a.accepted then .established else .idle) else m.state
      | .nothing => m.state := by
  cases act with
  | offer s sent => cases sent <;> rfl
  | accept o sent =>
    cases sent with
    | ok _ => simp [perform, acceptOffer, answerTo, Act.effect]
    | error fault => rfl
  | apply a => rfl
  | askKeyFrame sent => rfl
  | hear raw =>
    simp only [perform, receiveText, Act.effect]
    cases Message.parse raw with
    | error failure => rfl
    | ok message => cases message <;> rfl

/-- After an act an offer waits if it has just gone out, or if one waited before and has been let wait. -/
theorem offerSent_perform_iff (m : Manager) (act : Act) :
    (m.perform act).state = .offerSent ↔
      act.effect = .offers ∨ m.state = .offerSent ∧ act.effect.letsWait = true := by
  rw [state_perform]
  cases act.effect with
  | offers => simp
  | isApproached => simp [Effect.letsWait]
  | answers o => by_cases h : o.codec = m.codec <;> simp [Effect.letsWait, h]
  | isAnswered a => grind [Effect.letsWait]
  | nothing => simp [Effect.letsWait]

/-- After an act a session is established if a waiting offer has just been accepted, or if it was established before
and has been let stand. -/
theorem established_perform_iff (m : Manager) (act : Act) :
    (m.perform act).state = .established ↔
      (m.state = .offerSent ∧ ∃ a, act.effect = .isAnswered a ∧ a.accepted = true) ∨
        m.state = .established ∧ act.effect.letsStand = true := by
  rw [state_perform]
  cases act.effect with
  | offers => simp [Effect.letsStand]
  | isApproached => simp [Effect.letsStand]
  | answers o => by_cases h : o.codec = m.codec <;> simp [Effect.letsStand, h]
  | isAnswered a => grind [Effect.letsStand]
  | nothing => simp [Effect.letsStand]

/-! ## Runs -/

/-- **What acts bring about and others keep** holds after a run if and only if some act has brought it about and all
later ones have kept it. -/
theorem after_iff_since {P : Manager → Prop} {brings : Manager → Act → Prop} {keeps : Act → Prop}
    (step : ∀ m act, P (m.perform act) ↔ brings m act ∨ P m ∧ keeps act) {m : Manager} (hm : ¬ P m) (acts : List Act) :
    P (m.after acts) ↔ ∃ before act later,
      acts = before ++ act :: later ∧ brings (m.after before) act ∧ ∀ x ∈ later, keeps x := by
  -- by the last act: it brings the matter about, or keeps what an earlier one has brought about
  induction acts using List.reverseRecOn with
  | nil =>
    refine iff_of_false hm ?_
    rintro ⟨before, act, later, h, -, -⟩
    exact List.append_ne_nil_of_right_ne_nil before (List.cons_ne_nil act later) h.symm
  | append_singleton acts last ih =>
    rw [after_append_singleton, step, ih]
    constructor
    · rintro (hbrings | ⟨⟨before, act, later, rfl, hbrings, hlater⟩, hkeeps⟩)
      · exact ⟨acts, last, [], rfl, hbrings, List.forall_mem_nil _⟩
      · refine ⟨before, act, later ++ [last], by simp, hbrings, ?_⟩
        simpa [or_imp, forall_and] using ⟨hlater, hkeeps⟩
    · rintro ⟨before, act, later, heq, hbrings, hlater⟩
      rcases List.eq_nil_or_concat later with rfl | ⟨later, x, rfl⟩
      · obtain ⟨rfl, hlast⟩ := List.append_inj' heq rfl
        obtain rfl : last = act := List.singleton_inj.1 hlast
        exact .inl hbrings
      · rw [List.concat_eq_append, ← List.cons_append, ← List.append_assoc] at heq
        obtain ⟨rfl, hlast⟩ := List.append_inj' heq rfl
        obtain rfl : last = x := List.singleton_inj.1 hlast
        refine .inr ⟨⟨before, act, later, rfl, hbrings, fun y hy => hlater y ?_⟩, hlater last ?_⟩ <;> simp [*]

/-- An offer waits if and only if it has gone out and nothing has interrupted it since. -/
theorem offerSent_after_iff (codec : String) (acts : List Act) :
    (after { codec } acts).state = .offerSent ↔ ∃ before s between,
      acts = before ++ .offer s (.ok ()) :: between ∧ ∀ x ∈ between, x.effect.letsWait = true := by
  rw [after_iff_since (P := fun m => m.state = .offerSent) offerSent_perform_iff (by simp)]
  constructor
  · rintro ⟨before, act, between, rfl, hoffers, hwaits⟩
    obtain ⟨s, rfl⟩ := act.effect_eq_offers_iff.1 hoffers
    exact ⟨before, s, between, rfl, hwaits⟩
  · rintro ⟨before, s, between, rfl, hwaits⟩
    exact ⟨before, _, between, rfl, rfl, hwaits⟩

/-- **How a session is founded.**  Whatever a new manager does and hears, with whatever success, its session is
established if and only if it has sent an offer, which put it into waiting, nothing has interrupted the waiting until
an answer came in that accepted the offer, and nothing has ended the session since.  So no session is established
without an own offer. -/
theorem established_iff_founded (codec : String) (acts : List Act) :
    ((after { codec } acts).state = .established ↔
      ∃ before s between act a later,
        acts = before ++ .offer s (.ok ()) :: between ++ act :: later ∧
        (after { codec } (before ++ [.offer s (.ok ())])).state = .offerSent ∧
        (∀ x ∈ between, x.effect.letsWait = true) ∧
        (after { codec } (before ++ .offer s (.ok ()) :: between)).state = .offerSent ∧
        act.effect = .isAnswered a ∧ a.accepted = true ∧
        ∀ x ∈ later, x.effect.letsStand = true) ∧
    ((∀ act ∈ acts, act.effect ≠ .offers) → (after { codec } acts).state ≠ .established) := by
  have hfounded := after_iff_since (P := fun m => m.state = .established) established_perform_iff
    (m := { codec }) (by simp) acts
  refine ⟨hfounded.trans ⟨?_, ?_⟩, fun hnone hestablished => ?_⟩
  · rintro ⟨earlier, act, later, rfl, ⟨hwaiting, a, hanswered, haccepted⟩, hstands⟩
    obtain ⟨before, s, between, rfl, hwaits⟩ := (offerSent_after_iff codec earlier).1 hwaiting
    have hoffered := (offerSent_after_iff codec (before ++ [.offer s (.ok ())])).2
      ⟨before, s, [], rfl, List.forall_mem_nil _⟩
    exact ⟨before, s, between, act, a, later, rfl, hoffered, hwaits, hwaiting, hanswered, haccepted, hstands⟩
  · rintro ⟨before, s, between, act, a, later, rfl, -, -, hwaiting, hanswered, haccepted, hstands⟩
    exact ⟨_, act, later, rfl, ⟨hwaiting, a, hanswered, haccepted⟩, hstands⟩
  · obtain ⟨earlier, act, later, rfl, ⟨hwaiting, -⟩, -⟩ := hfounded.1 hestablished
    obtain ⟨before, s, between, rfl, -⟩ := (offerSent_after_iff codec earlier).1 hwaiting
    exact hnone (.offer s (.ok ())) (by simp) rfl

/-- An offer that the other side's offer interrupts, one that cannot be sent, and one that is accepted. -/
def renewed : List Act :=
  [.offer {} (.ok ()), .hear (Message.offer { codec := "H264" }).toJson, .accept { codec := "VP8" } (.ok ()),
    .offer {} (.error .channelClosed), .offer {} (.ok ()), .hear "pli", .askKeyFrame (.error .channelClosed),
    .hear (Message.answer { accepted := true }).toJson, .apply { accepted := false }]

/-- Everything that a manager may do without an offer of its own. -/
def passive : List Act :=
  [.apply { accepted := true }, .hear (Message.offer { codec := "H264" }).toJson, .accept { codec := "H264" } (.ok ()),
    .hear (Message.answer { accepted := true }).toJson, .askKeyFrame (.ok ()), .offer {} (.error .channelClosed)]

theorem established_iff_founded_renewed :
    (after {} renewed).state = .established ∧
      (∀ act ∈ passive, act.effect ≠ .offers) ∧ (after {} passive).state ≠ .established := by
  have hheard := Act.effect_hear_toJson (.answer { accepted := true })
  have hwaits : ∀ x ∈ [Act.hear "pli", .askKeyFrame (.error .channelClosed)], x.effect.letsWait = true := by
    simp only [List.forall_mem_cons]
    exact ⟨rfl, rfl, List.forall_mem_nil _⟩
  have hstands : ∀ x ∈ [Act.apply { accepted := false }], x.effect.letsStand = true := by
    simp only [List.forall_mem_cons]
    exact ⟨rfl, List.forall_mem_nil _⟩
  have hoffered := (offerSent_after_iff "H264" _).2
    ⟨renewed.take 4, {}, [], rfl, List.forall_mem_nil _⟩
  have hwaiting := (offerSent_after_iff "H264" _).2 ⟨renewed.take 4, {}, _, rfl, hwaits⟩
  have hpassive : ∀ act ∈ passive, act.effect ≠ .offers := by
    simp only [passive, List.forall_mem_cons, Act.effect_hear_toJson]
    simp [Act.effect]
  exact ⟨(established_iff_founded "H264" renewed).1.2
      ⟨renewed.take 4, {}, _, _, _, _, rfl, hoffered, hwaits, hwaiting, hheard, rfl, hstands⟩,
    hpassive, (established_iff_founded "H264" passive).2 hpassive⟩

end Manager
end Session
end VideoTransport
