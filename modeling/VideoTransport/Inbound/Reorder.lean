import VideoTransport.Serial
/-!
# Reorder — packets back into their order

Packets wait until all before them have come.  The cursor is the number waited for; it starts at the first packet
seen and may still move back until something has been released.  When more than `capacity` packets wait, the one
nearest the cursor is forced out and the cursor jumps past it, which gives up the gap before it.
-/
namespace VideoTransport

/-- A buffer that releases items in the order of their numbers. -/
structure Reorder (α : Type) where
  /-- How many items may wait; at least one. -/
  capacity : Nat
  /-- The items that wait, with their numbers. -/
  pending : List (Serial × α) := []
  /-- The number waited for, once an item has been seen. -/
  cursor : Option Serial := none
  hasReleased : Bool := false
  /-- Items forced out and not yet collected, oldest first. -/
  forced : List α := []
  /-- How many items have been thrown away. -/
  dropped : Nat := 0
  deriving Repr

namespace Reorder

variable {α : Type}

def defaultCapacity : Nat := 64

def ofCapacity (capacity : Nat) : Reorder α := { capacity := max capacity 1 }

def size (r : Reorder α) : Nat := r.pending.length

/-- Take the item with this number out of a list. -/
def takeOut (s : Serial) : List (Serial × α) → Option (α × List (Serial × α))
  | [] => none
  | (t, a) :: rest =>
    if t = s then some (a, rest)
    else (takeOut s rest).map fun (b, rest) => (b, (t, a) :: rest)

/-- The number nearest ahead of `cursor` among `best` and the numbers of a list. -/
def nearest (cursor : Serial) (best : Serial) (items : List (Serial × α)) : Serial :=
  items.foldl
    (fun best item => if Serial.distance cursor item.1 < Serial.distance cursor best then item.1 else best) best

/-- Force out the item nearest the cursor.  No more than `capacity` forced items are kept; the oldest one gives way. -/
def forceNearest (r : Reorder α) (cursor : Serial) : Reorder α :=
  match r.pending with
  | [] => r
  | (s, _) :: rest =>
    let chosen := nearest cursor s rest
    match takeOut chosen r.pending with
    | none => r
    | some (item, pending) =>
      let full := r.capacity ≤ r.forced.length
      { r with
        pending
        forced := (if full then r.forced.drop 1 else r.forced) ++ [item]
        dropped := if full then r.dropped + 1 else r.dropped
        cursor := some (chosen + 1)
        hasReleased := true }

/-- Let an item wait under its number, at or ahead of the cursor. -/
def insert (r : Reorder α) (cursor s : Serial) (item : α) : Reorder α :=
  if r.pending.any (·.1 = s) then { r with cursor := some cursor, dropped := r.dropped + 1 }
  else
    let r := { r with cursor := some cursor, pending := r.pending ++ [(s, item)] }
    if r.capacity < r.pending.length then r.forceNearest cursor else r

/-- Take in one item.  An item behind the cursor comes too late once anything has been released, and before that it
moves the cursor back to itself. -/
def add (r : Reorder α) (s : Serial) (item : α) : Reorder α :=
  let cursor := r.cursor.getD s
  if Serial.atOrAhead cursor s then r.insert cursor s item
  else if r.hasReleased then { r with dropped := r.dropped + 1 }
  else r.insert s s item

/-- The run of items that starts at `cursor`, what waits on, and the number after the run; `fuel` bounds the length
of the run. -/
def takeRun : Nat → Serial → List (Serial × α) → List α × List (Serial × α) × Serial
  | 0, cursor, pending => ([], pending, cursor)
  | fuel + 1, cursor, pending =>
    match takeOut cursor pending with
    | none => ([], pending, cursor)
    | some (item, pending) =>
      let (run, pending, cursor) := takeRun fuel (cursor + 1) pending
      (item :: run, pending, cursor)

/-- Release what was forced out and then all items without a gap before them. -/
def popReady (r : Reorder α) : List α × Reorder α :=
  match r.cursor with
  | none => (r.forced, { r with forced := [] })
  | some cursor =>
    let (run, pending, cursor) := takeRun r.pending.length cursor r.pending
    let ready := r.forced ++ run
    (ready,
      { r with
        pending
        cursor := some cursor
        forced := []
        hasReleased := r.hasReleased || !ready.isEmpty })

end Reorder
end VideoTransport
