import VideoTransport.Session.Message
import VideoTransport.Settings
/-!
# Manager — one side of a session

The side that offers goes from idle to waiting for the answer, and with an accepting answer to an established session.
The side that is offered to answers, and accepts exactly the offers for its own codec.  Key frames may be asked for in
every state.  Whether a message can be sent is the channel's affair: each sending operation is told the outcome.
-/
namespace VideoTransport
namespace Session

inductive State where
  | idle
  | offerSent
  | offerReceived
  | answerSent
  | established
  deriving DecidableEq, Repr

namespace State

def name : State → String
  | .idle => "idle"
  | .offerSent => "offer-sent"
  | .offerReceived => "offer-received"
  | .answerSent => "answer-sent"
  | .established => "established"

/-- The name that diagnostics use. -/
def describe : State → String
  | .idle => "Idle"
  | .offerSent => "OfferSent"
  | .offerReceived => "OfferReceived"
  | .answerSent => "AnswerSent"
  | .established => "Established"

end State

structure Manager where
  /-- The codec that offers must name to be accepted. -/
  codec : String := "H264"
  state : State := .idle
  /-- The last offer made here. -/
  localOffer : Option Offer := none
  /-- The last offer that came in. -/
  remoteOffer : Option Offer := none
  /-- The last answer, whichever side gave it. -/
  answer : Option Answer := none
  deriving DecidableEq, Repr

namespace Manager

/-- The offer that settings amount to. -/
def offerOf (s : SessionSettings) : Offer where
  codec := s.codec
  profileLevelId := s.profileLevelId
  width := s.width
  height := s.height
  bitrate := s.bitrate
  parameterSets := s.parameterSets.getD ""

/-- The answer to an offer. -/
def answerTo (m : Manager) (o : Offer) : Answer where
  accepted := o.codec = m.codec
  codec := o.codec
  profileLevelId := o.profileLevelId
  parameterSets := o.parameterSets

/-- Make an offer.  It is remembered and waited for before it is sent, because the answer may come at once; if it
cannot be sent, only the state goes back. -/
def createOffer (m : Manager) (s : SessionSettings) (sent : Except Fault Unit) : Except Fault Offer × Manager :=
  let offer := offerOf s
  let waiting := { m with localOffer := some offer, state := .offerSent }
  match sent with
  | .ok () => (.ok offer, waiting)
  | .error fault => (.error fault, { waiting with state := m.state })

/-- Answer an offer; nothing changes unless the answer can be sent. -/
def acceptOffer (m : Manager) (o : Offer) (sent : Except Fault Unit) : Except Fault Answer × Manager :=
  let answer := m.answerTo o
  match sent with
  | .ok () =>
    (.ok answer, { m with answer := some answer, state := if answer.accepted then .answerSent else .idle })
  | .error fault => (.error fault, m)

/-- Take the peer's answer.  It is remembered in any case, but decides only about an offer that waits for one. -/
def applyAnswer (m : Manager) (a : Answer) : Manager :=
  let state := if m.state = .offerSent then (if a.accepted then .established else .idle) else m.state
  { m with state, answer := some a }

/-- Take an incoming message. -/
def receive (m : Manager) : Message → Manager
  | .offer o => { m with remoteOffer := some o, state := .offerReceived }
  | .answer a => m.applyAnswer a
  | .keyFrameRequest => m

/-- Take an incoming text; one that is no message is ignored. -/
def receiveText (m : Manager) (raw : String) : Option Message × Manager :=
  match Message.parse raw with
  | .ok message => (some message, m.receive message)
  | .error _ => (none, m)

/-- The manager as diagnostics show it. -/
def describe (m : Manager) : String :=
  "NegotiationManager \x7b local_codec: " ++ Text.quoted m.codec ++ ", state: " ++ m.state.describe ++ " \x7d"

end Manager
end Session
end VideoTransport
