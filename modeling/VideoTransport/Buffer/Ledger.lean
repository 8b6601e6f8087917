import VideoTransport.Buffer.AccessUnit
/-!
# Ledger — a pool and all its loans

A ledger follows one pool through a whole run.  Every buffer that is lent and every access unit that takes one over
gets the next number; a number whose loan has ended stays taken.
-/
namespace VideoTransport

inductive Loan where
  | buffer (b : Buffer)
  | unit (u : AccessUnit)
  /-- Dropped, forgotten or taken over. -/
  | gone
  deriving DecidableEq, Repr

structure Ledger where
  pool : Pool
  loans : List Loan := []
  deriving DecidableEq, Repr

namespace Ledger

def ofLimit (limit : Nat) : Ledger := { pool := Pool.ofLimit limit }

def buffer? (l : Ledger) (id : Nat) : Option Buffer :=
  match l.loans[id]? with
  | some (.buffer b) => some b
  | _ => none

def unit? (l : Ledger) (id : Nat) : Option AccessUnit :=
  match l.loans[id]? with
  | some (.unit u) => some u
  | _ => none

def buffers (l : Ledger) : List Buffer := l.loans.filterMap fun
  | .buffer b => some b
  | _ => none

def units (l : Ledger) : List AccessUnit := l.loans.filterMap fun
  | .unit u => some u
  | _ => none

def set (l : Ledger) (id : Nat) (loan : Loan) : Ledger := { l with loans := l.loans.set id loan }

/-- Give the next number to a loan. -/
def enter (l : Ledger) (loan : Loan) : Nat × Ledger := (l.loans.length, { l with loans := l.loans ++ [loan] })

/-! ## Buffers -/

def acquire (l : Ledger) : Except Fault Nat × Ledger :=
  match l.pool.acquire with
  | .error fault => (.error fault, l)
  | .ok (buffer, pool) =>
    let (id, l) := { l with pool }.enter (.buffer buffer)
    (.ok id, l)

def extend (l : Ledger) (id : Nat) (data : Bytes) : Ledger :=
  match l.buffer? id with
  | none => l
  | some b => l.set id (.buffer (b.append data))

/-- Give a buffer back; the answer tells whether this call did it, or that there is no such buffer. -/
def release (l : Ledger) (id : Nat) : Option Bool × Ledger :=
  match l.buffer? id with
  | none => (none, l)
  | some b =>
    let (done, b, pool) := b.release l.pool
    (some done, { l with pool }.set id (.buffer b))

/-- Part with a buffer, giving it back unless that has been done. -/
def drop (l : Ledger) (id : Nat) : Bool × Ledger :=
  match l.buffer? id with
  | none => (false, l)
  | some b => (true, { l with pool := (b.release l.pool).2.2 }.set id .gone)

/-- Part with a buffer without giving it back; it stays outstanding. -/
def forget (l : Ledger) (id : Nat) : Bool × Ledger :=
  match l.buffer? id with
  | none => (false, l)
  | some _ => (true, l.set id .gone)

/-! ## Access units -/

/-- Copy a bitstream into a new access unit. -/
def enterUnit (l : Ledger) (data : Bytes) (isKeyFrame : Bool) (timestamp : UInt32) (captureTicks : Int) :
    Except Fault Nat × Ledger :=
  match AccessUnit.ofBytes l.pool data isKeyFrame timestamp captureTicks with
  | .error fault => (.error fault, l)
  | .ok (unit, pool) =>
    let (id, l) := { l with pool }.enter (.unit unit)
    (.ok id, l)

/-- Turn a buffer into an access unit; one that is refused goes back to the pool.  Nothing happens when there is no
such buffer. -/
def promote (l : Ledger) (id : Nat) (isKeyFrame : Bool) (timestamp : UInt32) (captureTicks : Int) :
    Option (Except Fault Nat) × Ledger :=
  match l.buffer? id with
  | none => (none, l)
  | some b =>
    match AccessUnit.ofBuffer b isKeyFrame timestamp captureTicks with
    | .error fault => (some (.error fault), (l.drop id).2)
    | .ok unit =>
      let (new, l) := (l.set id .gone).enter (.unit unit)
      (some (.ok new), l)

def releaseUnit (l : Ledger) (id : Nat) : Ledger :=
  match l.unit? id with
  | none => l
  | some u =>
    let (u, pool) := u.release l.pool
    { l with pool }.set id (.unit u)

def dropUnit (l : Ledger) (id : Nat) : Bool × Ledger :=
  match l.unit? id with
  | none => (false, l)
  | some u => (true, { l with pool := (u.release l.pool).2 }.set id .gone)

/-- Part with a unit without giving it back; its buffer stays outstanding. -/
def forgetUnit (l : Ledger) (id : Nat) : Bool × Ledger :=
  match l.unit? id with
  | none => (false, l)
  | some _ => (true, l.set id .gone)

end Ledger
end VideoTransport
