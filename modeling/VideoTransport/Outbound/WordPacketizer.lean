import VideoTransport.Outbound.Packetizer
/-!
# WordPacketizer — packets with sizes in machine words

A machine keeps sizes in words of sixty-four bits, and sums and differences of words go round.  This packetizer is
`Packetizer` with every size in a word, from the limit and the overhead of the cipher to the memory that is asked for
before a packet is encrypted.  More memory than there can be ends the program, and then there is no result.
-/
namespace VideoTransport

/-- The overhead as a word. -/
def Cipher.overheadWord (c : Cipher) : UInt64 := UInt64.ofNat c.overhead

structure WordPacketizer where
  payloadType : UInt8
  ssrc : UInt32
  /-- The longest packet, header included. -/
  mtu : UInt64
  cipher : Cipher
  counter : SerialCounter := {}
  sets : ParameterSets := {}
  /-- The size limit has passed the check for room. -/
  room : UInt64.ofNat Rtp.headerLength + UInt64.ofNat Fragment.headerLength + cipher.overheadWord < mtu

namespace WordPacketizer

open Packetizer (Cursor)

/-- The size that packets must exceed. -/
def leastMtu (cipher : Cipher) : UInt64 :=
  UInt64.ofNat Rtp.headerLength + UInt64.ofNat Fragment.headerLength + cipher.overheadWord

def create (payloadType : UInt8) (ssrc : UInt32) (mtu : UInt64) (cipher : Cipher) : Except Fault WordPacketizer :=
  if room : leastMtu cipher < mtu then
    if 0x7f < payloadType then .error (.setting (.payloadTypeTooWide payloadType))
    else if Rtcp.collides payloadType then .error (.setting (.payloadTypeCollides payloadType))
    else .ok { payloadType, ssrc, mtu, cipher, room }
  else .error (.setting (.mtuTooSmall mtu.toNat (leastMtu cipher).toNat))

/-- Number the next packet `start`. -/
def startAt (p : WordPacketizer) (start : Serial) : WordPacketizer := { p with counter := ⟨start⟩ }

/-- The number that the next packet will take. -/
def nextSequence (p : WordPacketizer) : Serial := p.counter.peek

def budget (p : WordPacketizer) : Budget where
  whole := (p.mtu - UInt64.ofNat Rtp.headerLength - p.cipher.overheadWord).toNat
  piece := (p.mtu - UInt64.ofNat Rtp.headerLength - UInt64.ofNat Fragment.headerLength - p.cipher.overheadWord).toNat

theorem toNat_headerLength : (UInt64.ofNat Rtp.headerLength).toNat = 12 := rfl

theorem toNat_fragmentLength : (UInt64.ofNat Fragment.headerLength).toNat = 2 := rfl

/-- A piece is never empty, even if sizes have gone round: it is what the limit exceeds the least one by. -/
theorem budget_piece_pos (p : WordPacketizer) : 0 < p.budget.piece := by
  have hroom := UInt64.lt_iff_toNat_lt.1 p.room
  have hmtu := p.mtu.toNat_lt
  have hoverhead := p.cipher.overheadWord.toNat_lt
  simp only [budget, UInt64.toNat_add, UInt64.toNat_sub, toNat_headerLength, toNat_fragmentLength] at hroom ⊢
  omega

/-! ## One packet -/

/-- How long a payload may become. -/
def limit (p : WordPacketizer) (d : Draft) : UInt64 := UInt64.ofNat d.payload.length + p.cipher.overheadWord

/-- The memory that is asked for. -/
def request (p : WordPacketizer) (d : Draft) : UInt64 :=
  UInt64.ofNat Rtp.headerLength + UInt64.ofNat d.payload.length + p.cipher.overheadWord

/-- Number and encrypt one packet; nothing comes out when the cipher fails or exceeds its overhead.  There is no result
when more memory is asked for than there can be. -/
def emit (p : WordPacketizer) (timestamp : UInt32) (d : Draft) : Option (Option Bytes × WordPacketizer) :=
  let (sequence, counter) := p.counter.next
  let header : Rtp.Header := ⟨d.marker, p.payloadType, sequence, timestamp, p.ssrc⟩
  if Bytes.longest < (p.request d).toNat then none
  else
    let packet := match p.cipher.encrypt header.packetMeta d.payload with
      | .error _ => none
      | .ok payload => if (p.limit d).toNat < payload.length then none else some (header.write ++ payload)
    some (packet, { p with counter })

/-! ## The packets of a unit -/

/-- Begin an access unit, and keep its parameter sets. -/
def begin (p : WordPacketizer) (u : AccessUnit) : Cursor × WordPacketizer :=
  let nals := AnnexB.nalUnits u.bytes
  ({ timestamp := u.timestamp, nals }, { p with sets := nals.foldl ParameterSets.capture p.sets })

/-- The next packet that comes out, passing over those that the cipher keeps back. -/
def next (p : WordPacketizer) (c : Cursor) : Option (Option Bytes × WordPacketizer × Cursor) :=
  match _h : c.step p.budget with
  | none => some (none, p, c)
  | some (d, c') =>
    match p.emit c.timestamp d with
    | none => none
    | some (some packet, p') => some (some packet, p', c')
    | some (none, p') => next p' c'
termination_by c.weight
decreasing_by exact Cursor.step_weight p.budget_piece_pos _h

/-- At most `n` packets, in order, and what is left unless the program has ended. -/
def pull : Nat → WordPacketizer → Cursor → List Bytes × Option (WordPacketizer × Cursor)
  | 0, p, c => ([], some (p, c))
  | n + 1, p, c =>
    match p.next c with
    | none => ([], none)
    | some (none, p, c) => ([], some (p, c))
    | some (some packet, p, c) =>
      let (packets, left) := pull n p c
      (packet :: packets, left)

def packets (p : WordPacketizer) (u : AccessUnit) : List Bytes × Option WordPacketizer :=
  let (c, p) := p.begin u
  let (packets, left) := p.pull c.weight c
  (packets, left.map Prod.fst)

end WordPacketizer
end VideoTransport
