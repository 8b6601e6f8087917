import VideoTransport.Buffer.AccessUnit
/-!
# Holdings — access units that an application keeps

An application may keep units that it is given, and each then gets the next number; a unit that is not kept goes back
to its pool at once.
-/
namespace VideoTransport

structure Holdings where
  /-- How many units have been kept so far. -/
  count : Nat := 0
  /-- The units that are kept still, with their numbers. -/
  live : List (Nat × AccessUnit) := []
  deriving DecidableEq, Repr

namespace Holdings

/-- Keep a unit under the next number. -/
def keep (h : Holdings) (u : AccessUnit) : Nat × Holdings := (h.count, ⟨h.count + 1, h.live ++ [(h.count, u)]⟩)

/-- Give a unit back, if there is one with this number. -/
def drop (h : Holdings) (id : Nat) (p : Pool) : Bool × Holdings × Pool :=
  match h.live.find? (·.1 = id) with
  | none => (false, h, p)
  | some (_, u) => (true, { h with live := h.live.filter (·.1 ≠ id) }, (u.release p).2)

/-- Keep units, each under a number of its own, or give them all back. -/
def takeOver (keeps : Bool) : List AccessUnit → Holdings → Pool → List (AccessUnit × Option Nat) × Holdings × Pool
  | [], h, p => ([], h, p)
  | u :: rest, h, p =>
    let (id, h, p) := if keeps then let (id, h) := h.keep u; (some id, h, p) else (none, h, (u.release p).2)
    let (units, h, p) := takeOver keeps rest h p
    ((u, id) :: units, h, p)

end Holdings
end VideoTransport
