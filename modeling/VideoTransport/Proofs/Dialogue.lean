import Mathlib.Data.List.Induction
import VideoTransport.Proofs.Messages
import VideoTransport.Session.Pair
/-!
# Dialogue — what two sides come to agree on

Two sides offer, ask for key frames and take up what is on its way to them, in any order (`Move`).  A move changes one
side only, and what it does is decided by the oldest offer or answer on its way (`move_cases`).  When one side makes
all the offers and waits for each answer, both sides agree on the last offer and its answer whenever neither an offer
nor an answer is on its way (`agrees_of_oneSided`).
-/
namespace VideoTransport
namespace Session

def Side.other : Side → Side
  | .a => .b
  | .b => .a

/-- What happens between two sides; the channel takes everything that is sent. -/
inductive Move where
  | offer (side : Side) (s : SessionSettings)
  | askKeyFrame (side : Side)
  /-- A side takes up the oldest text on its way, if there is one. -/
  | deliver (side : Side)

/-- The offer that a move makes. -/
def Move.offer? : Move → Option Offer
  | .offer _ s => some (Manager.offerOf s)
  | _ => none

def lastOffer (moves : List Move) : Option Offer := (moves.filterMap Move.offer?).getLast?

theorem lastOffer_append_singleton (moves : List Move) (move : Move) :
    lastOffer (moves ++ [move]) = move.offer?.or (lastOffer moves) := by
  rw [lastOffer, List.filterMap_append, List.getLast?_append]
  cases h : move.offer? <;> simp [h, lastOffer]

/-! ## Offers and answers on their way -/

def Message.isTerms : Message → Bool
  | .keyFrameRequest => false
  | _ => true

/-- The offers and answers that texts carry. -/
def terms (texts : List String) : List Message :=
  texts.filterMap fun raw => (Message.parse raw).toOption.filter Message.isTerms

theorem terms_append (texts later : List String) : terms (texts ++ later) = terms texts ++ terms later :=
  List.filterMap_append

theorem terms_toJson (messages : List Message) :
    terms (messages.map Message.toJson) = messages.filter Message.isTerms := by
  induction messages with
  | nil => rfl
  | cons m messages ih =>
    have hparse : Message.parse m.toJson = .ok m := m.parse_ofList_write
    rw [terms] at ih
    rw [terms, List.map_cons, List.filterMap_cons, hparse, ih]
    cases m <;> rfl

namespace Manager

theorem receiveText_toJson (m : Manager) (message : Message) :
    m.receiveText message.toJson = (some message, m.receive message) := by
  have hparse : Message.parse message.toJson = .ok message := message.parse_ofList_write
  rw [receiveText, hparse]

/-- What answering an offer `n` times makes of a manager. -/
def acceptTimes (o : Offer) (n : Nat) (m : Manager) : Manager := (fun m => (acceptOffer m o (.ok ())).2)^[n] m

theorem codec_acceptTimes (o : Offer) (n : Nat) (m : Manager) : (m.acceptTimes o n).codec = m.codec := by
  induction n generalizing m with
  | zero => rfl
  | succ n ih => exact ih _

end Manager

namespace Endpoint

/-- Handlers that answer one after the other. -/
theorem answerTimes_ok (o : Offer) (n : Nat) (e : Endpoint) :
    (answerTimes (.ok ()) o n e).2 =
      (List.replicate n (.answer (e.manager.answerTo o)), { e with manager := e.manager.acceptTimes o n }) := by
  induction n generalizing e with
  | zero => rfl
  | succ n ih =>
    have hfirst : (answerTimes (.ok ()) o (n + 1) e).2 =
        ([.answer (e.manager.answerTo o)] ++
            (answerTimes (.ok ()) o n { e with manager := (e.manager.acceptOffer o (.ok ())).2 }).2.1,
          (answerTimes (.ok ()) o n { e with manager := (e.manager.acceptOffer o (.ok ())).2 }).2.2) := rfl
    rw [hfirst, ih]
    rfl

/-! What an endpoint makes of a text, and what it says in return. -/

variable (e : Endpoint) {raw : String}

theorem handle_error {failure : Json.Failure} (h : Message.parse raw = .error failure) :
    (e.handle (.ok ()) raw).2 = ([], e) := by
  simp only [handle, Manager.receiveText, h]

theorem handle_offer {o : Offer} (h : Message.parse raw = .ok (.offer o)) :
    (e.handle (.ok ()) raw).2 =
      (List.replicate e.answering (.answer (e.manager.answerTo o)),
        { e with manager := (e.manager.receive (.offer o)).acceptTimes o e.answering }) := by
  simp only [handle, Manager.receiveText, h]
  exact answerTimes_ok o e.answering { e with manager := e.manager.receive (.offer o) }

theorem handle_answer {a : Answer} (h : Message.parse raw = .ok (.answer a)) :
    (e.handle (.ok ()) raw).2 = ([], { e with manager := e.manager.applyAnswer a }) := by
  simp only [handle, Manager.receiveText, h, Manager.receive]

theorem handle_keyFrameRequest (h : Message.parse raw = .ok .keyFrameRequest) :
    (e.handle (.ok ()) raw).2 = ([], e) := by
  simp only [handle, Manager.receiveText, h, Manager.receive]

end Endpoint

namespace Pair

/-- The texts on their way to a side, oldest first. -/
def texts (p : Pair) : Side → List String
  | .a => p.toA
  | .b => p.toB

def manager (p : Pair) (side : Side) : Manager := (p.endpoint side).manager

/-- The offers and answers on their way to a side, oldest first. -/
def pending (p : Pair) (side : Side) : List Message := terms (p.texts side)

/-- Neither an offer nor an answer is on its way. -/
def IsQuiet (p : Pair) : Prop := ∀ side, p.pending side = []

theorem isQuiet_of_empty {p : Pair} (ha : p.toA = []) (hb : p.toB = []) : p.IsQuiet
  | .a => congrArg terms ha
  | .b => congrArg terms hb

/-! ## Moves -/

def move (p : Pair) : Move → Pair
  | .offer side s =>
    let (_, messages, e) := (p.endpoint side).offer s (.ok ())
    (p.setEndpoint e side).send (messages.map Message.toJson) side
  | .askKeyFrame side => p.send ((Endpoint.requestKeyFrame (.ok ())).2.map Message.toJson) side
  | .deliver side => ((p.deliver side).map Prod.snd).getD p

def after (p : Pair) (moves : List Move) : Pair := moves.foldl move p

theorem after_append_singleton (p : Pair) (moves : List Move) (m : Move) :
    p.after (moves ++ [m]) = (p.after moves).move m := by
  rw [after, List.foldl_append]
  rfl

/-- One side comes to a manager and to what is left on its way, and has said something to the other one. -/
structure Changes (p : Pair) (side : Side) (m : Manager) (left said : List Message) (p' : Pair) : Prop where
  manager : p'.manager side = m
  manager_other : p'.manager side.other = p.manager side.other
  pending : p'.pending side = left
  pending_other : p'.pending side.other = p.pending side.other ++ said
  answering : ∀ x, (p'.endpoint x).answering = (p.endpoint x).answering

/-- What a move can make of a pair. -/
inductive Turn (p : Pair) : Move → Pair → Prop
  /-- Nothing came in that makes a difference. -/
  | stood {m : Move} {p' : Pair} (hm : m.offer? = none) (manager : ∀ x, p'.manager x = p.manager x)
      (pending : ∀ x, p'.pending x = p.pending x)
      (answering : ∀ x, (p'.endpoint x).answering = (p.endpoint x).answering) : Turn p m p'
  | offered {side : Side} {s : SessionSettings} {p' : Pair}
      (changes : Changes p side ((p.manager side).createOffer s (.ok ())).2 (p.pending side)
        [.offer (Manager.offerOf s)] p') : Turn p (.offer side s) p'
  | approached {side : Side} {o : Offer} {left : List Message} {p' : Pair} (h : p.pending side = .offer o :: left)
      (changes : Changes p side
        (((p.manager side).receive (.offer o)).acceptTimes o (p.endpoint side).answering) left
        (List.replicate (p.endpoint side).answering (.answer ((p.manager side).answerTo o))) p') :
      Turn p (.deliver side) p'
  | replied {side : Side} {a : Answer} {left : List Message} {p' : Pair} (h : p.pending side = .answer a :: left)
      (changes : Changes p side ((p.manager side).applyAnswer a) left [] p') : Turn p (.deliver side) p'

/-- What one side does changes that side, and adds to what is on its way to the other one. -/
theorem changes_send (p : Pair) (side : Side) {e : Endpoint} (messages : List Message)
    (he : e.answering = (p.endpoint side).answering) :
    Changes p side e.manager (p.pending side) (messages.filter Message.isTerms)
      ((p.setEndpoint e side).send (messages.map Message.toJson) side) := by
  have hsaid (texts : List String) :
      terms (texts ++ messages.map Message.toJson) = terms texts ++ messages.filter Message.isTerms := by
    rw [terms_append, terms_toJson]
  cases side with
  | a => exact ⟨rfl, rfl, rfl, hsaid p.toB, fun | .a => he | .b => rfl⟩
  | b => exact ⟨rfl, rfl, rfl, hsaid p.toA, fun | .a => rfl | .b => he⟩

/-- What a side does with the oldest text on its way. -/
theorem changes_deliver {p : Pair} {side : Side} {raw : String} {rest : List String} {e : Endpoint}
    {said : List Message} (h : p.texts side = raw :: rest)
    (hhandle : ((p.endpoint side).handle (.ok ()) raw).2 = (said, e))
    (he : e.answering = (p.endpoint side).answering) :
    Changes p side e.manager (terms rest) (said.filter Message.isTerms) (p.move (.deliver side)) := by
  obtain ⟨a, b, toA, toB⟩ := p
  cases side with
  | a =>
    subst h
    obtain ⟨rfl, rfl⟩ := Prod.ext_iff.1 hhandle
    have hsent := changes_send ⟨a, b, rest, toB⟩ .a (a.handle (.ok ()) raw).2.1 he
    have hmove : move ⟨a, b, raw :: rest, toB⟩ (.deliver .a) =
        (setEndpoint ⟨a, b, rest, toB⟩ (a.handle (.ok ()) raw).2.2 .a).send
          ((a.handle (.ok ()) raw).2.1.map Message.toJson) .a := rfl
    rw [hmove]
    exact ⟨hsent.manager, hsent.manager_other, hsent.pending, hsent.pending_other, hsent.answering⟩
  | b =>
    subst h
    obtain ⟨rfl, rfl⟩ := Prod.ext_iff.1 hhandle
    have hsent := changes_send ⟨a, b, toA, rest⟩ .b (b.handle (.ok ()) raw).2.1 he
    have hmove : move ⟨a, b, toA, raw :: rest⟩ (.deliver .b) =
        (setEndpoint ⟨a, b, toA, rest⟩ (b.handle (.ok ()) raw).2.2 .b).send
          ((b.handle (.ok ()) raw).2.1.map Message.toJson) .b := rfl
    rw [hmove]
    exact ⟨hsent.manager, hsent.manager_other, hsent.pending, hsent.pending_other, hsent.answering⟩

theorem Changes.stood {p : Pair} {side : Side} {m : Move} {p' : Pair} (hm : m.offer? = none)
    (h : Changes p side (p.manager side) (p.pending side) [] p') : Turn p m p' := by
  have hpending : p'.pending side.other = p.pending side.other := by rw [h.pending_other, List.append_nil]
  cases side with
  | a =>
    exact .stood hm (fun | .a => h.manager | .b => h.manager_other) (fun | .a => h.pending | .b => hpending)
      h.answering
  | b =>
    exact .stood hm (fun | .a => h.manager_other | .b => h.manager) (fun | .a => hpending | .b => h.pending)
      h.answering

theorem pending_cons {p : Pair} {side : Side} {raw : String} {rest : List String} (h : p.texts side = raw :: rest) :
    p.pending side = ((Message.parse raw).toOption.filter Message.isTerms).toList ++ terms rest := by
  rw [pending, h, terms, List.filterMap_cons]
  cases (Message.parse raw).toOption.filter Message.isTerms <;> rfl

/-- **A move** in its possible outcomes. -/
theorem move_cases (p : Pair) (m : Move) : Turn p m (p.move m) := by
  cases m with
  | offer side s =>
    let e := ((p.endpoint side).offer s (.ok ())).2.2
    exact .offered (changes_send p side (e := e) [.offer (Manager.offerOf s)] rfl)
  | askKeyFrame side =>
    have hstays : p.setEndpoint (p.endpoint side) side = p := by cases side <;> rfl
    have hchanges := changes_send p side (e := p.endpoint side) [.keyFrameRequest] rfl
    rw [hstays] at hchanges
    exact hchanges.stood rfl
  | deliver side =>
    cases htexts : p.texts side with
    | nil =>
      have hstays : p.move (.deliver side) = p := by
        cases side <;> simp only [texts] at htexts <;> simp [move, deliver, htexts]
      rw [hstays]
      exact .stood rfl (fun _ => rfl) (fun _ => rfl) (fun _ => rfl)
    | cons raw rest =>
      have hpending := pending_cons htexts
      cases hparse : Message.parse raw with
      | error failure =>
        have hchanges := changes_deliver htexts (Endpoint.handle_error (p.endpoint side) hparse) rfl
        rw [hparse] at hpending
        rw [show terms rest = p.pending side from hpending.symm] at hchanges
        exact Changes.stood rfl hchanges
      | ok message =>
        rw [hparse] at hpending
        cases message with
        | offer o =>
          have hchanges := changes_deliver htexts (Endpoint.handle_offer (p.endpoint side) hparse) rfl
          rw [List.filter_replicate_of_pos rfl] at hchanges
          exact .approached hpending hchanges
        | answer a =>
          have hchanges := changes_deliver htexts (Endpoint.handle_answer (p.endpoint side) hparse) rfl
          exact .replied hpending hchanges
        | keyFrameRequest =>
          have hchanges := changes_deliver htexts (Endpoint.handle_keyFrameRequest (p.endpoint side) hparse) rfl
          rw [show terms rest = p.pending side from hpending.symm] at hchanges
          exact Changes.stood rfl hchanges

/-- A move leaves alone what a side is set up with. -/
theorem codec_move (p : Pair) (m : Move) (x : Side) : ((p.move m).manager x).codec = (p.manager x).codec := by
  have hside {side : Side} {manager : Manager} {left said : List Message} {p' : Pair}
      (h : Changes p side manager left said p') (hcodec : manager.codec = (p.manager side).codec) :
      (p'.manager x).codec = (p.manager x).codec := by
    by_cases hx : x = side
    · rw [hx, h.manager, hcodec]
    · have hother : x = side.other := by cases x <;> cases side <;> first | rfl | exact absurd rfl hx
      rw [hother, h.manager_other]
  cases move_cases p m with
  | stood _ manager _ _ => rw [manager x]
  | offered changes => exact hside changes rfl
  | approached _ changes => exact hside changes (Manager.codec_acceptTimes _ _ _)
  | replied _ changes => exact hside changes rfl

theorem answering_move (p : Pair) (m : Move) (x : Side) :
    ((p.move m).endpoint x).answering = (p.endpoint x).answering := by
  cases move_cases p m with
  | stood _ _ _ answering => exact answering x
  | offered changes => exact changes.answering x
  | approached _ changes => exact changes.answering x
  | replied _ changes => exact changes.answering x

theorem after_keeps (p : Pair) (moves : List Move) (x : Side) :
    ((p.after moves).manager x).codec = (p.manager x).codec ∧
      ((p.after moves).endpoint x).answering = (p.endpoint x).answering := by
  induction moves using List.reverseRecOn with
  | nil => exact ⟨rfl, rfl⟩
  | append_singleton moves m ih =>
    rw [after_append_singleton, codec_move, answering_move]
    exact ih

/-! ## One side offers -/

/-- Both managers are new, and nothing is on its way. -/
structure IsNew (p : Pair) : Prop where
  manager : ∀ side, p.manager side = { codec := (p.manager side).codec }
  texts : ∀ side, p.texts side = []

/-- Offers are for the first side to make, and not while one of them waits. -/
def Permits (p : Pair) : Move → Prop
  | .offer side _ => side = .a ∧ (p.manager .a).state ≠ .offerSent
  | _ => True

/-- Only the first side makes offers, and none while one of them waits. -/
def OneSided : Pair → List Move → Prop
  | _, [] => True
  | p, m :: moves => p.Permits m ∧ OneSided (p.move m) moves

theorem oneSided_append_singleton (m : Move) : ∀ (moves : List Move) (p : Pair),
    p.OneSided (moves ++ [m]) ↔ p.OneSided moves ∧ (p.after moves).Permits m
  | [], p => by simp [OneSided, after]
  | first :: moves, p => by
    rw [List.cons_append, OneSided, oneSided_append_singleton m moves, OneSided, and_assoc]
    rfl

/-- A manager has answered an offer. -/
structure Answered (m : Manager) (o : Offer) : Prop where
  remoteOffer : m.remoteOffer = some o
  answer : m.answer = some (m.answerTo o)
  state : m.state = if (m.answerTo o).accepted then .answerSent else .idle

/-- How far the last offer of the first side has come. -/
inductive Stage (p : Pair) : Option Offer → Prop
  | unopened (toA : p.pending .a = []) (toB : p.pending .b = []) : Stage p none
  | offered {o : Offer} (state : (p.manager .a).state = .offerSent) (localOffer : (p.manager .a).localOffer = some o)
      (toA : p.pending .a = []) (toB : p.pending .b = [.offer o]) : Stage p (some o)
  | answered {o : Offer} (state : (p.manager .a).state = .offerSent) (localOffer : (p.manager .a).localOffer = some o)
      (reply : Answered (p.manager .b) o) (toA : p.pending .a = [.answer ((p.manager .b).answerTo o)])
      (toB : p.pending .b = []) : Stage p (some o)
  | settled {o : Offer}
      (state : (p.manager .a).state = if ((p.manager .b).answerTo o).accepted then .established else .idle)
      (localOffer : (p.manager .a).localOffer = some o)
      (answer : (p.manager .a).answer = some ((p.manager .b).answerTo o))
      (reply : Answered (p.manager .b) o) (toA : p.pending .a = []) (toB : p.pending .b = []) : Stage p (some o)

theorem Stage.of_eq {p p' : Pair} {last : Option Offer} (hmanager : ∀ x, p'.manager x = p.manager x)
    (hpending : ∀ x, p'.pending x = p.pending x) (h : Stage p last) : Stage p' last := by
  cases h with
  | unopened toA toB => exact .unopened ((hpending .a).trans toA) ((hpending .b).trans toB)
  | offered state localOffer toA toB =>
    rw [← hmanager .a] at state localOffer
    exact .offered state localOffer ((hpending .a).trans toA) ((hpending .b).trans toB)
  | answered state localOffer reply toA toB =>
    rw [← hmanager .a] at state localOffer
    rw [← hmanager .b] at reply toA
    exact .answered state localOffer reply ((hpending .a).trans toA) ((hpending .b).trans toB)
  | settled state localOffer answer reply toA toB =>
    rw [← hmanager .a, ← hmanager .b] at state answer
    rw [← hmanager .a] at localOffer
    rw [← hmanager .b] at reply
    exact .settled state localOffer answer reply ((hpending .a).trans toA) ((hpending .b).trans toB)

/-- An offer on its way is the last one, and goes to the second side. -/
theorem Stage.of_pending_offer {p : Pair} {last : Option Offer} {side : Side} {o : Offer} {left : List Message}
    (h : Stage p last) (hpending : p.pending side = .offer o :: left) :
    side = .b ∧ left = [] ∧ last = some o ∧ (p.manager .a).state = .offerSent ∧
      (p.manager .a).localOffer = some o ∧ p.pending .a = [] := by
  cases side with
  | a => cases h <;> rename_i toA _ <;> rw [toA] at hpending <;> cases hpending
  | b =>
    cases h with
    | offered state localOffer toA toB =>
      rw [toB] at hpending
      cases hpending
      exact ⟨rfl, rfl, rfl, state, localOffer, toA⟩
    | unopened _ toB | answered _ _ _ _ toB | settled _ _ _ _ _ toB =>
      rw [toB] at hpending
      cases hpending

/-- An answer on its way is the one to the last offer, and goes to the first side. -/
theorem Stage.of_pending_answer {p : Pair} {last : Option Offer} {side : Side} {a : Answer} {left : List Message}
    (h : Stage p last) (hpending : p.pending side = .answer a :: left) :
    side = .a ∧ left = [] ∧ p.pending .b = [] ∧ (p.manager .a).state = .offerSent ∧
      ∃ o, last = some o ∧ (p.manager .a).localOffer = some o ∧ Answered (p.manager .b) o ∧
        a = (p.manager .b).answerTo o := by
  cases side with
  | a =>
    cases h with
    | answered state localOffer reply toA toB =>
      rw [toA] at hpending
      cases hpending
      exact ⟨rfl, rfl, toB, state, _, rfl, localOffer, reply, rfl⟩
    | unopened toA _ | offered _ _ toA _ | settled _ _ _ _ toA _ =>
      rw [toA] at hpending
      cases hpending
  | b => cases h <;> rename_i toB <;> rw [toB] at hpending <;> cases hpending

/-- **A move takes the last offer further**, or makes a new one when the last one is settled. -/
theorem Stage.move {p : Pair} {last : Option Offer} {m : Move} (h : Stage p last)
    (honce : (p.endpoint .b).answering = 1) (hpermits : p.Permits m) : Stage (p.move m) (m.offer?.or last) := by
  cases move_cases p m with
  | stood hm manager pending _ =>
    rw [hm]
    exact h.of_eq manager pending
  | @offered side s _ changes =>
    obtain ⟨rfl, hwaits⟩ := hpermits
    have hidle : p.pending .a = [] ∧ p.pending .b = [] := by
      cases h with
      | unopened toA toB => exact ⟨toA, toB⟩
      | offered state => exact absurd state hwaits
      | answered state => exact absurd state hwaits
      | settled _ _ _ _ toA toB => exact ⟨toA, toB⟩
    have htoB : (p.move (.offer .a s)).pending .b = [.offer (Manager.offerOf s)] := by
      rw [show Side.b = Side.a.other from rfl, changes.pending_other, show Side.a.other = .b from rfl, hidle.2]
      rfl
    exact .offered (by rw [changes.manager]; rfl) (by rw [changes.manager]; rfl) (changes.pending.trans hidle.1) htoB
  | approached hpending changes =>
    obtain ⟨rfl, rfl, rfl, hstate, hlocal, htoA⟩ := h.of_pending_offer hpending
    rw [honce] at changes
    have ha : (p.move (.deliver .b)).manager .a = p.manager .a := changes.manager_other
    have hb := changes.manager
    have hsaid := changes.pending_other
    rw [show Side.b.other = .a from rfl, htoA] at hsaid
    refine .answered (by rw [ha, hstate]) (by rw [ha, hlocal]) ⟨?_, ?_, ?_⟩ ?_ changes.pending
    · rw [hb]
      rfl
    · rw [hb]
      rfl
    · rw [hb]
      rfl
    · rw [hsaid, hb]
      rfl
  | replied hpending changes =>
    obtain ⟨rfl, rfl, htoB, hstate, o, rfl, hlocal, hreply, rfl⟩ := h.of_pending_answer hpending
    have hb : (p.move (.deliver .a)).manager .b = p.manager .b := changes.manager_other
    have ha := changes.manager
    have htoB' : (p.move (.deliver .a)).pending .b = p.pending .b ++ [] := changes.pending_other
    rw [htoB] at htoB'
    rw [← hb] at hreply
    refine .settled ?_ (by rw [ha]; exact hlocal) (by rw [ha, hb]; rfl) hreply changes.pending htoB'
    rw [ha, hb, Manager.applyAnswer, if_pos hstate]

theorem stage_after {p : Pair} (hnew : p.IsNew) (honce : p.b.answering = 1) (moves : List Move)
    (hsided : p.OneSided moves) : Stage (p.after moves) (lastOffer moves) := by
  induction moves using List.reverseRecOn with
  | nil =>
    have hpending (x : Side) : p.pending x = [] := by
      rw [pending, hnew.texts x]
      rfl
    exact .unopened (hpending .a) (hpending .b)
  | append_singleton moves m ih =>
    obtain ⟨hbefore, hpermits⟩ := (oneSided_append_singleton m moves p).1 hsided
    rw [after_append_singleton, lastOffer_append_singleton]
    exact (ih hbefore).move ((p.after_keeps moves .b).2.trans honce) hpermits

/-- **Agreement.**  When only the first of two new sides makes offers, each after the answer to the one before, and the
second side answers every offer once, then whatever they offer, however the texts come and whenever key frames are
asked for: with neither an offer nor an answer on its way, the session stands on both sides if the last offer named
the codec of the second side, and on none otherwise; and both hold that offer and the same answer, which is about it. -/
theorem agrees_of_oneSided {p : Pair} (hnew : p.IsNew) (honce : p.b.answering = 1) {moves : List Move}
    (hsided : p.OneSided moves) (hquiet : (p.after moves).IsQuiet) {o : Offer} (hlast : lastOffer moves = some o) :
    let a := (p.after moves).manager .a
    let b := (p.after moves).manager .b
    (if o.codec = p.b.manager.codec then a.state = .established ∧ b.state = .answerSent
      else a.state = .idle ∧ b.state = .idle) ∧
      b.remoteOffer = some o ∧ a.localOffer = some o ∧
      ∃ answer : Answer, a.answer = some answer ∧ b.answer = some answer ∧
        answer.accepted = decide (o.codec = p.b.manager.codec) ∧ answer.codec = o.codec ∧
        answer.profileLevelId = o.profileLevelId ∧ answer.parameterSets = o.parameterSets := by
  intro a b
  have hstage := stage_after hnew honce moves hsided
  rw [hlast] at hstage
  have hcodec : b.codec = p.b.manager.codec := (p.after_keeps moves .b).1
  cases hstage with
  | offered _ _ _ toB => rw [hquiet .b] at toB; cases toB
  | answered _ _ _ toA => rw [hquiet .a] at toA; cases toA
  | settled state localOffer answer reply _ _ =>
    have haccepted : (b.answerTo o).accepted = decide (o.codec = p.b.manager.codec) := by rw [← hcodec]; rfl
    have hb := reply.state
    refine ⟨?_, reply.remoteOffer, localOffer, b.answerTo o, answer, reply.answer, haccepted, rfl, rfl, rfl⟩
    rw [haccepted] at state hb
    split
    · rename_i hnames
      rw [decide_eq_true hnames] at state hb
      exact ⟨state, hb⟩
    · rename_i hnames
      rw [decide_eq_false hnames] at state hb
      exact ⟨state, hb⟩

/-- Two rounds, with key frames asked for in between. -/
def twoRounds (s s' : SessionSettings) : List Move :=
  [.offer .a s, .askKeyFrame .b, .deliver .b, .deliver .a, .askKeyFrame .a, .deliver .a, .offer .a s', .deliver .b,
    .deliver .b, .deliver .a]

def newcomers : Pair := { a := { manager := {} }, b := { manager := {}, answering := 1 } }

theorem oneSided_twoRounds (s s' : SessionSettings) : newcomers.OneSided (twoRounds s s') := by
  by_cases h : s.codec = "H264" <;>
    simp [h, newcomers, twoRounds, OneSided, Permits, move, deliver, endpoint, setEndpoint, send, manager,
      Endpoint.offer, Endpoint.accept, Endpoint.requestKeyFrame, Endpoint.answerTimes, Endpoint.handle,
      Manager.createOffer, Manager.offerOf, Manager.acceptOffer, Manager.answerTo, Manager.applyAnswer,
      Manager.receive, Manager.receiveText_toJson, Except.toOption]

theorem after_twoRounds (s s' : SessionSettings) :
    (newcomers.after (twoRounds s s')).toA = [] ∧ (newcomers.after (twoRounds s s')).toB = [] := by
  simp [newcomers, twoRounds, after, move, deliver, endpoint, setEndpoint, send, Endpoint.offer, Endpoint.accept,
    Endpoint.requestKeyFrame, Endpoint.answerTimes, Endpoint.handle, Manager.createOffer, Manager.acceptOffer,
    Manager.receive, Manager.receiveText_toJson, Except.toOption]

theorem agrees_of_oneSided_twoRounds :
    let moves := twoRounds { codec := "VP8" } { width := 640 }
    newcomers.IsNew ∧ newcomers.b.answering = 1 ∧ newcomers.OneSided moves ∧ (newcomers.after moves).IsQuiet ∧
      lastOffer moves = some (Manager.offerOf { width := 640 }) ∧
      ((newcomers.after moves).manager .a).state = .established ∧
      ((newcomers.after moves).manager .b).state = .answerSent := by
  have hnew : newcomers.IsNew := ⟨fun | .a => rfl | .b => rfl, fun | .a => rfl | .b => rfl⟩
  have hsided := oneSided_twoRounds { codec := "VP8" } { width := 640 }
  obtain ⟨htoA, htoB⟩ := after_twoRounds { codec := "VP8" } { width := 640 }
  have hquiet := isQuiet_of_empty htoA htoB
  have hstates := (agrees_of_oneSided hnew rfl hsided hquiet (o := Manager.offerOf { width := 640 }) rfl).1
  have hnames : (Manager.offerOf { width := 640 }).codec = newcomers.b.manager.codec := rfl
  rw [if_pos hnames] at hstates
  exact ⟨hnew, rfl, hsided, hquiet, rfl, hstates⟩

end Pair
end Session
end VideoTransport
