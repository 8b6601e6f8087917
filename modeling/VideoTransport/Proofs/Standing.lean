import Mathlib.Data.List.Induction
import VideoTransport.Session.Manager
/-!
# Standing — what the state of a manager says about its past

A manager offers, answers and asks for key frames, and takes answers and texts as they come (`Act`).  Only an answer
that meets a waiting offer establishes a session (`perform_cases`), and in an established session the answer that is
remembered is the last one that came in (`Manager.established_answer`): it accepts, unless it came when the session was
established already.
-/
namespace VideoTransport
namespace Session

/-- What befalls a manager; whatever it sends comes with the outcome of the sending. -/
inductive Act where
  | offer (s : SessionSettings) (sent : Except Fault Unit)
  | accept (o : Offer) (sent : Except Fault Unit)
  | apply (a : Answer)
  | askKeyFrame (sent : Except Fault Unit)
  | hear (raw : String)

/-- The answer that comes in with an act. -/
def Act.reply? : Act → Option Answer
  | .apply a => some a
  | .hear raw => match Message.parse raw with
    | .ok (.answer a) => some a
    | _ => none
  | _ => none

namespace Manager

def perform (m : Manager) : Act → Manager
  | .offer s sent => (m.createOffer s sent).2
  | .accept o sent => (m.acceptOffer o sent).2
  | .apply a => m.applyAnswer a
  | .askKeyFrame _ => m
  | .hear raw => (m.receiveText raw).2

def after (m : Manager) (acts : List Act) : Manager := acts.foldl perform m

theorem after_append_singleton (m : Manager) (acts : List Act) (act : Act) :
    m.after (acts ++ [act]) = (m.after acts).perform act := by
  rw [after, List.foldl_append]
  rfl

/-! ## One act -/

/-- What an act that brings in no answer can make of a manager. -/
inductive Turn (m : Manager) : Manager → Prop
  | unchanged : Turn m m
  | offered (o : Offer) : Turn m { m with localOffer := some o, state := .offerSent }
  /-- An offer was made but could not be sent. -/
  | withdrawn (o : Offer) : Turn m { m with localOffer := some o }
  | approached (o : Offer) : Turn m { m with remoteOffer := some o, state := .offerReceived }
  | answered (o : Offer) :
      Turn m { m with
        answer := some (m.answerTo o)
        state := if (m.answerTo o).accepted then .answerSent else .idle }

/-- **An act** either brings in an answer, or takes one of the turns that need none. -/
theorem perform_cases (m : Manager) (act : Act) :
    (∃ a, act.reply? = some a ∧ m.perform act = m.applyAnswer a) ∨ act.reply? = none ∧ Turn m (m.perform act) := by
  cases act with
  | offer s sent =>
    cases sent with
    | ok _ => exact .inr ⟨rfl, .offered (offerOf s)⟩
    | error fault => exact .inr ⟨rfl, .withdrawn (offerOf s)⟩
  | accept o sent =>
    cases sent with
    | ok _ => exact .inr ⟨rfl, .answered o⟩
    | error fault => exact .inr ⟨rfl, .unchanged⟩
  | apply a => exact .inl ⟨a, rfl, rfl⟩
  | askKeyFrame sent => exact .inr ⟨rfl, .unchanged⟩
  | hear raw =>
    simp only [Act.reply?, perform, receiveText]
    cases Message.parse raw with
    | error failure => exact .inr ⟨rfl, .unchanged⟩
    | ok message =>
      cases message with
      | offer o => exact .inr ⟨rfl, .approached o⟩
      | answer a => exact .inl ⟨a, rfl, rfl⟩
      | keyFrameRequest => exact .inr ⟨rfl, .unchanged⟩

/-- Without an answer a session is established only if it has been so before, and the answer stays. -/
theorem Turn.established {m m' : Manager} (h : Turn m m') (hstate : m'.state = .established) :
    m.state = .established ∧ m'.answer = m.answer := by
  cases h with
  | unchanged => exact ⟨hstate, rfl⟩
  | offered o => cases hstate
  | withdrawn o => exact ⟨hstate, rfl⟩
  | approached o => cases hstate
  | answered o =>
    simp only at hstate
    split at hstate <;> cases hstate

/-- An answer leaves a session established if it accepts a waiting offer, or if the session was established before. -/
theorem applyAnswer_established {m : Manager} {a : Answer} (h : (m.applyAnswer a).state = .established) :
    m.state = .offerSent ∧ a.accepted = true ∨ m.state = .established := by
  unfold applyAnswer at h
  by_cases hwaits : m.state = .offerSent
  · rw [if_pos hwaits] at h
    cases haccepted : a.accepted with
    | true => exact .inl ⟨hwaits, rfl⟩
    | false =>
      rw [haccepted] at h
      cases h
  · rw [if_neg hwaits] at h
    exact .inr h

/-! ## Runs -/

/-- The last answer that comes in, and the state that it meets. -/
def lastReply : Manager → List Act → Option (State × Answer)
  | _, [] => none
  | m, act :: rest => (lastReply (m.perform act) rest).or (act.reply?.map (m.state, ·))

theorem lastReply_append_singleton (act : Act) : ∀ (acts : List Act) (m : Manager),
    m.lastReply (acts ++ [act]) = (act.reply?.map ((m.after acts).state, ·)).or (m.lastReply acts)
  | [], m => by simp [lastReply, after]
  | first :: rest, m => by
    rw [List.cons_append, lastReply, lastReply_append_singleton act rest, lastReply, Option.or_assoc]
    rfl

/-- **The answer of an established session.**  Whatever a new manager does and hears, with whatever success: when its
session is established, the answer that it remembers is the last one that came in, and that one accepts, unless it met
a session that was established already. -/
theorem established_answer (codec : String) (acts : List Act)
    (h : (after { codec } acts).state = .established) :
    ∃ met a, lastReply { codec } acts = some (met, a) ∧ (after { codec } acts).answer = some a ∧
      (a.accepted = true ∨ met = .established) := by
  induction acts using List.reverseRecOn with
  | nil => cases h
  | append_singleton acts act ih =>
    rw [after_append_singleton] at h ⊢
    rw [lastReply_append_singleton]
    rcases perform_cases (after { codec } acts) act with ⟨a, hreply, hperform⟩ | ⟨hreply, hturn⟩
    · rw [hperform] at h ⊢
      refine ⟨(after { codec } acts).state, a, by rw [hreply]; rfl, rfl, ?_⟩
      exact (applyAnswer_established h).imp And.right id
    · obtain ⟨hbefore, hanswer⟩ := hturn.established h
      rw [hreply, hanswer]
      exact ih hbefore

/-- An offer is accepted, and its answer is followed by one that rejects. -/
def overruled : List Act := [.offer {} (.ok ()), .apply { accepted := true }, .apply { accepted := false }]

theorem established_answer_overruled : (after {} overruled).state = .established ∧
    ∃ met a, lastReply {} overruled = some (met, a) ∧ (after {} overruled).answer = some a ∧
      (a.accepted = true ∨ met = .established) :=
  ⟨rfl, established_answer "H264" overruled rfl⟩

/-- The answer of an established session need not accept. -/
theorem established_despite_refusal : (after {} overruled).state = .established ∧
    ∃ a, (after {} overruled).answer = some a ∧ a.accepted = false :=
  ⟨rfl, _, rfl, rfl⟩

end Manager
end Session
end VideoTransport
