import VideoTransport.Session.Endpoint
/-!
# Pair — two sides and the channel between them

A pair joins two endpoints by a queue of texts in each direction; texts are taken up in the order in which they were
sent.
-/
namespace VideoTransport
namespace Session

/-- One of the two sides. -/
inductive Side where
  | a
  | b
  deriving DecidableEq, Repr

structure Pair where
  a : Endpoint
  b : Endpoint
  /-- Texts on their way to the first side, oldest first. -/
  toA : List String := []
  /-- Texts on their way to the second side, oldest first. -/
  toB : List String := []

namespace Pair

def endpoint (p : Pair) : Side → Endpoint
  | .a => p.a
  | .b => p.b

def setEndpoint (p : Pair) (e : Endpoint) : Side → Pair
  | .a => { p with a := e }
  | .b => { p with b := e }

/-- Queue texts that a side sends to the other one. -/
def send (p : Pair) (texts : List String) : Side → Pair
  | .a => { p with toB := p.toB ++ texts }
  | .b => { p with toA := p.toA ++ texts }

/-- Let a side take up the oldest text on its way, if there is one. -/
def deliver (p : Pair) (side : Side) : Option (List Event × Pair) :=
  match side with
  | .a =>
    match p.toA with
    | [] => none
    | raw :: toA =>
      let (events, messages, a) := p.a.handle (.ok ()) raw
      some (events, { p with a, toA }.send (messages.map Message.toJson) .a)
  | .b =>
    match p.toB with
    | [] => none
    | raw :: toB =>
      let (events, messages, b) := p.b.handle (.ok ()) raw
      some (events, { p with b, toB }.send (messages.map Message.toJson) .b)

/-- Take up texts until none is on its way, or `fuel` of them have been taken; the events of each side in order. -/
def settleWithin : Nat → Pair → List Event × List Event × Pair
  | 0, p => ([], [], p)
  | fuel + 1, p =>
    match p.deliver .b with
    | some (events, p) =>
      let (ofA, ofB, p) := settleWithin fuel p
      (ofA, events ++ ofB, p)
    | none =>
      match p.deliver .a with
      | some (events, p) =>
        let (ofA, ofB, p) := settleWithin fuel p
        (events ++ ofA, ofB, p)
      | none => ([], [], p)

/-- Every text on its way causes at most as many answers as the other side has handlers, and answers cause none. -/
def settle (p : Pair) : List Event × List Event × Pair :=
  settleWithin ((p.toA.length + p.toB.length) * (p.a.answering + p.b.answering + 1)) p

end Pair
end Session
end VideoTransport
