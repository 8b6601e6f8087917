import VideoTransport.Bytes
import VideoTransport.Fault
/-!
# Pool — a bounded supply of buffers

A pool lends at most `limit` buffers at a time and keeps those that come back, with what they hold, for later loans; a
buffer is cleared when it is lent anew.  A buffer that is never given back stays outstanding for good.
-/
namespace VideoTransport

/-- A buffer on loan: its octets, or nothing once it has been given back. -/
structure Buffer where
  held : Option Bytes := some []
  deriving DecidableEq, Repr

namespace Buffer

/-- The octets written so far; a released buffer reads as empty. -/
def bytes (b : Buffer) : Bytes := b.held.getD []

def isReleased (b : Buffer) : Bool := b.held.isNone

/-- Write behind what is there; a released buffer stays as it is. -/
def append (b : Buffer) (data : Bytes) : Buffer := ⟨b.held.map (· ++ data)⟩

/-- Forget what is there. -/
def clear (b : Buffer) : Buffer := ⟨b.held.map fun _ => []⟩

def describe (b : Buffer) : String :=
  "PooledBuffer \x7b len: " ++ toString b.bytes.length ++ ", released: " ++ toString b.isReleased ++ " \x7d"

end Buffer

structure Pool where
  /-- How many buffers may be out at once. -/
  limit : Nat
  /-- How many are out, forgotten ones included. -/
  outstanding : Nat := 0
  /-- What the buffers hold that came back and wait for reuse, the latest first. -/
  shelf : List Bytes := []
  deriving DecidableEq, Repr

namespace Pool

def defaultLimit : Nat := 256

def ofLimit (limit : Nat) : Pool := { limit }

/-- How many buffers came back and wait for reuse. -/
def idle (p : Pool) : Nat := p.shelf.length

/-- Lend one buffer, the one that came back last if there is any. -/
def acquire (p : Pool) : Except Fault (Buffer × Pool) :=
  if p.outstanding < p.limit then
    .ok (Buffer.clear ⟨some (p.shelf.headD [])⟩,
      { p with outstanding := p.outstanding + 1, shelf := p.shelf.tail })
  else .error (.poolExhausted p.limit)

/-- Take back a buffer that holds these octets. -/
def release (p : Pool) (octets : Bytes) : Pool :=
  { p with outstanding := p.outstanding - 1, shelf := if p.idle < p.limit then octets :: p.shelf else p.shelf }

def describe (p : Pool) : String :=
  "BufferPool \x7b limit: " ++ toString p.limit ++ ", outstanding: " ++ toString p.outstanding ++ " \x7d"

end Pool

/-- Give the buffer back; only the first time does it reach the pool, and the answer tells. -/
def Buffer.release (b : Buffer) (p : Pool) : Bool × Buffer × Pool :=
  if b.isReleased then (false, b, p) else (true, ⟨none⟩, p.release b.bytes)

end VideoTransport
