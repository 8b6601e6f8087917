import VideoTransport.Session.Manager
/-!
# Endpoint — a manager and those who listen to it

Handlers answer every offer that comes in, and an encoder is asked for key frames.  Every operation is told whether
messages can be sent, and says which messages it has sent.
-/
namespace VideoTransport
namespace Session

/-- What the listeners of an endpoint come to know, in this order. -/
inductive Event where
  | offer (o : Offer)
  | answer (a : Answer)
  | keyFrameRequest
  /-- The encoder of this name has been asked for a key frame. -/
  | encoder (name : String)
  /-- A handler has answered an offer, or failed to. -/
  | autoAnswer (result : Except Fault Bool)

structure Endpoint where
  manager : Manager
  /-- The encoder that key frame requests go to. -/
  encoder : Option String := none
  /-- How many handlers answer each incoming offer. -/
  answering : Nat := 0

namespace Endpoint

/-! ## What an endpoint does of its own accord -/

/-- Make an offer. -/
def offer (e : Endpoint) (s : SessionSettings) (sent : Except Fault Unit) :
    Except Fault Offer × List Message × Endpoint :=
  let (result, manager) := e.manager.createOffer s sent
  (result, (result.toOption.map Message.offer).toList, { e with manager })

/-- Answer an offer. -/
def accept (e : Endpoint) (o : Offer) (sent : Except Fault Unit) : Except Fault Answer × List Message × Endpoint :=
  let (result, manager) := e.manager.acceptOffer o sent
  (result, (result.toOption.map Message.answer).toList, { e with manager })

/-- Ask the other side for a key frame; this leaves the endpoint as it is. -/
def requestKeyFrame (sent : Except Fault Unit) : Except Fault Unit × List Message :=
  (sent, (sent.toOption.map fun _ => Message.keyFrameRequest).toList)

/-! ## What comes in -/

/-- Let `n` handlers answer an offer, one after the other. -/
def answerTimes (sent : Except Fault Unit) (o : Offer) : Nat → Endpoint → List Event × List Message × Endpoint
  | 0, e => ([], [], e)
  | n + 1, e =>
    let (result, messages, e) := e.accept o sent
    let (events, later, e) := answerTimes sent o n e
    (.autoAnswer (result.map Answer.accepted) :: events, messages ++ later, e)

/-- Take an incoming text; `sent` is the outcome of every message sent meanwhile.  Gives what the listeners come to
know and what has been sent. -/
def handle (e : Endpoint) (sent : Except Fault Unit) (raw : String) : List Event × List Message × Endpoint :=
  let (message, manager) := e.manager.receiveText raw
  let e := { e with manager }
  match message with
  | none => ([], [], e)
  | some (.offer o) =>
    let (events, messages, e) := answerTimes sent o e.answering e
    (.offer o :: events, messages, e)
  | some (.answer a) => ([.answer a], [], e)
  | some .keyFrameRequest => (.keyFrameRequest :: (e.encoder.map Event.encoder).toList, [], e)

end Endpoint

end Session
end VideoTransport
