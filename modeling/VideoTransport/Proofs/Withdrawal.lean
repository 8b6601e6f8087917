import VideoTransport.Proofs.Standing
import VideoTransport.Session.Endpoint
/-!
# Withdrawal — what is left of a message that could not be sent

An answer is remembered once it has been sent, so nothing is left of one that could not be.  An offer is remembered
before it is sent; when it cannot be sent the state goes back, but the offer stays in the place of the one before
(`Manager.failure_spares_iff`).  So a manager remembers the last offer that it has tried to make, and in all else it is
as if whatever failed had not been tried (`Manager.after_eq_carried`).
-/
namespace VideoTransport
namespace Session

/-- The offer that an act tries to make. -/
def Act.proposal? : Act → Option Offer
  | .offer s _ => some (Manager.offerOf s)
  | _ => none

def Act.sent : Act → Except Fault Unit
  | .offer _ sent => sent
  | .accept _ sent => sent
  | .askKeyFrame sent => sent
  | _ => .ok ()

namespace Manager

variable {m : Manager} {act : Act} {fault : Fault}

/-- How an act ends for the one who does it. -/
def outcome (m : Manager) : Act → Except Fault Unit
  | .offer s sent => (m.createOffer s sent).1.map fun _ => ()
  | .accept o sent => (m.acceptOffer o sent).1.map fun _ => ()
  | .askKeyFrame sent => (Endpoint.requestKeyFrame sent).1
  | _ => .ok ()

theorem outcome_eq_sent (m : Manager) (act : Act) : m.outcome act = act.sent := by
  cases act with
  | offer s sent => cases sent <;> rfl
  | accept o sent => cases sent <;> rfl
  | apply a => rfl
  | askKeyFrame sent => rfl
  | hear raw => rfl

def remembering (m : Manager) (o : Option Offer) : Manager := { m with localOffer := o }

/-! ## One act -/

/-- **One act** replaces the offer that is remembered by the one that it tries to make, and does not look at it. -/
theorem perform_remembering (m : Manager) (o : Option Offer) (act : Act) :
    (m.remembering o).perform act = (m.perform act).remembering (act.proposal?.or o) := by
  cases act with
  | offer s sent => cases sent <;> rfl
  | accept offered sent => cases sent <;> rfl
  | apply a => rfl
  | askKeyFrame sent => rfl
  | hear raw =>
    simp only [perform, receiveText]
    cases Message.parse raw with
    | error failure => rfl
    | ok message => cases message <;> rfl

/-- **An act that fails** leaves nothing but the offer that it tried to make. -/
theorem perform_of_failure (h : act.sent = .error fault) :
    m.perform act = m.remembering (act.proposal?.or m.localOffer) := by
  cases act with
  | offer s sent =>
    obtain rfl : sent = .error fault := h
    rfl
  | accept o sent =>
    obtain rfl : sent = .error fault := h
    rfl
  | apply a => cases h
  | askKeyFrame sent => rfl
  | hear raw => cases h

/-! ## Runs -/

def lastProposal (acts : List Act) : Option Offer := (acts.filterMap Act.proposal?).getLast?

theorem lastProposal_cons (act : Act) (rest : List Act) :
    lastProposal (act :: rest) = (lastProposal rest).or act.proposal? := by
  unfold lastProposal
  cases hproposal : act.proposal? with
  | none => rw [List.filterMap_cons_none hproposal, Option.or_none]
  | some o =>
    rw [List.filterMap_cons_some hproposal, List.getLast?_cons]
    cases (rest.filterMap Act.proposal?).getLast? <;> rfl

/-- The acts that do not fail. -/
def carried (acts : List Act) : List Act := acts.filter fun act => act.sent.toBool

/-- **A run in which acts fail** comes to what it would be without them, but for the offer that is remembered: that is
the last one tried. -/
theorem after_remembering : ∀ (acts : List Act) (m : Manager) (o : Option Offer),
    (m.remembering o).after acts = (m.after (carried acts)).remembering ((lastProposal acts).or o)
  | [], _, _ => rfl
  | act :: rest, m, o => by
    have hnext : (m.remembering o).after (act :: rest) =
        ((m.perform act).remembering (act.proposal?.or o)).after rest := by
      rw [← perform_remembering]
      rfl
    rw [hnext, lastProposal_cons, Option.or_assoc]
    cases hsent : act.sent with
    | ok _ =>
      have hcarried : carried (act :: rest) = act :: carried rest := List.filter_cons_of_pos (by rw [hsent]; rfl)
      rw [hcarried]
      exact after_remembering rest (m.perform act) _
    | error fault =>
      have hcarried : carried (act :: rest) = carried rest :=
        List.filter_cons_of_neg (by rw [hsent]; exact Bool.false_ne_true)
      rw [hcarried, perform_of_failure hsent]
      exact after_remembering rest m _

theorem after_eq_carried (codec : String) (acts : List Act) :
    after { codec } acts = (after { codec } (carried acts)).remembering (lastProposal acts) := by
  have hrun := after_remembering acts { codec } none
  rw [Option.or_none] at hrun
  exact hrun

/-- **What a failed act spares.**  Whatever a new manager has done and heard, with whatever success: an act that fails
leaves its state, the offer of the other side and the answer.  It leaves the offer made here if and only if it makes
none, or the same one as the last that was tried. -/
theorem failure_spares_iff (codec : String) (acts : List Act) (act : Act) (fault : Fault)
    (h : (after { codec } acts).outcome act = .error fault) :
    let m := after { codec } acts
    let m' := m.perform act
    (m'.state = m.state ∧ m'.remoteOffer = m.remoteOffer ∧ m'.answer = m.answer) ∧
      (m'.localOffer = m.localOffer ↔ ∀ o, act.proposal? = some o → lastProposal acts = some o) := by
  intro m m'
  have hm' : m' = m.remembering (act.proposal?.or m.localOffer) := by
    rw [outcome_eq_sent] at h
    exact perform_of_failure h
  have hlast : m.localOffer = lastProposal acts := congrArg localOffer (after_eq_carried codec acts)
  rw [hm']
  refine ⟨⟨rfl, rfl, rfl⟩, ?_⟩
  show act.proposal?.or m.localOffer = m.localOffer ↔ _
  rw [hlast]
  cases act.proposal? with
  | none => exact iff_of_true rfl fun o ho => by cases ho
  | some o =>
    constructor
    · rintro hsame _ ⟨⟩
      exact hsame.symm
    · intro hsame
      exact (hsame o rfl).symm

/-- The second offer cannot be sent, and takes the place of the first one, which waits for its answer. -/
theorem failure_spares_iff_replaced :
    let acts : List Act := [.offer {} (.ok ())]
    let m := after {} acts
    let m' := m.perform (.offer { width := 640 } (.error .channelClosed))
    (m'.state = .offerSent ∧ m'.remoteOffer = m.remoteOffer ∧ m'.answer = m.answer) ∧ m'.localOffer ≠ m.localOffer := by
  intro acts m m'
  obtain ⟨hspared, hoffer⟩ := failure_spares_iff "H264" acts (.offer { width := 640 } (.error .channelClosed))
    .channelClosed rfl
  refine ⟨hspared, fun hsame => ?_⟩
  exact absurd (hoffer.1 hsame _ rfl) (by decide)

/-- A new manager whose offer cannot be sent remembers it as made. -/
theorem failure_remembers_offer :
    let m : Manager := {}
    let act : Act := .offer {} (.error .channelClosed)
    m.outcome act = .error .channelClosed ∧ m.localOffer = none ∧ (m.perform act).localOffer = some (offerOf {}) :=
  ⟨rfl, rfl, rfl⟩

end Manager
end Session
end VideoTransport
