/-!
# Listeners — handlers that are told about events

Handlers run in the order in which they subscribed.  A handler may bring in further ones; those are told from the next
event on.
-/
namespace VideoTransport

/-- The handlers of one kind of event, first subscribed first. -/
structure Listeners (η : Type) where
  handlers : List η := []
  deriving DecidableEq, Repr

namespace Listeners

variable {η σ : Type}

def subscribe (l : Listeners η) (handler : η) : Listeners η := ⟨l.handlers ++ [handler]⟩

def size (l : Listeners η) : Nat := l.handlers.length

def isEmpty (l : Listeners η) : Bool := l.handlers.isEmpty

/-- Run handlers in order over a state, collecting the handlers that they bring in. -/
def runAll (run : η → σ → List η × σ) : List η → σ → List η × σ
  | [], st => ([], st)
  | h :: rest, st =>
    let (brought, st) := run h st
    let (later, st) := runAll run rest st
    (brought ++ later, st)

/-- Tell every handler about an event; `run` is what a handler makes of it. -/
def emit (l : Listeners η) (run : η → σ → List η × σ) (st : σ) : Listeners η × σ :=
  let (brought, st) := runAll run l.handlers st
  (⟨l.handlers ++ brought⟩, st)

/-- The registry as diagnostics show it. -/
def describe (l : Listeners η) : String := "Listeners \x7b count: " ++ toString l.size ++ " \x7d"

end Listeners
end VideoTransport
