import VideoTransport.Base64
import VideoTransport.Buffer.AccessUnit
import VideoTransport.Outbound.Plan
import VideoTransport.Rtcp.Report
/-!
# Packetizer — access units into packets

A packetizer numbers and encrypts packets one at a time, as they are asked for.  A number is used up also by a packet
that the cipher fails on or makes too long; such a packet is left out, and the receiver sees the gap.  The first
parameter sets that pass through are kept, so that they can be advertised.

Sizes are numbers of any length here, so no sum of them goes round.  `WordPacketizer` keeps them in machine words, and
the two agree as long as the headers and the overhead of the cipher fit a word together (`WordPacketizer.natural`).
-/
namespace VideoTransport

/-! ## Parameter sets -/

/-- The parameter sets of a stream, each the first of its type so far. -/
structure ParameterSets where
  sequence : Option Bytes := none
  picture : Option Bytes := none

namespace ParameterSets

/-- Keep a NAL unit if it is the first parameter set of its type. -/
def capture (s : ParameterSets) (nal : Bytes) : ParameterSets :=
  if Nal.kind? nal = some Nal.sequenceParameters && s.sequence.isNone then { s with sequence := some nal }
  else if Nal.kind? nal = some Nal.pictureParameters && s.picture.isNone then { s with picture := some nal }
  else s

/-- The three octets behind the header of the sequence parameter set, in hexadecimal. -/
def profileLevelId (s : ParameterSets) : Option String :=
  match s.sequence with
  | some (_ :: profile :: constraints :: level :: _) => some (Bytes.toHex [profile, constraints, level])
  | _ => none

/-- Both parameter sets in base64, with a comma between them. -/
def text (s : ParameterSets) : Option String :=
  match s.sequence, s.picture with
  | some sequence, some picture => some (String.ofList (Base64.encode sequence ++ ',' :: Base64.encode picture))
  | _, _ => none

end ParameterSets

/-! ## Packetizers -/

structure Packetizer where
  payloadType : UInt8
  ssrc : UInt32
  /-- The longest packet, header included. -/
  mtu : Nat
  cipher : Cipher
  counter : SerialCounter := {}
  /-- The first sequence parameter set so far. -/
  sequenceSet : Option Bytes := none
  /-- The first picture parameter set so far. -/
  pictureSet : Option Bytes := none
  /-- A fragment of at least one octet fits into a packet. -/
  room : Rtp.headerLength + Fragment.headerLength + cipher.overhead < mtu

namespace Packetizer

def defaultMtu : Nat := 1200
def defaultPayloadType : UInt8 := 96

/-- The size that packets must exceed so that fragments can carry anything. -/
def leastMtu (cipher : Cipher) : Nat := Rtp.headerLength + Fragment.headerLength + cipher.overhead

def create (payloadType : UInt8) (ssrc : UInt32) (mtu : Nat) (cipher : Cipher) : Except Fault Packetizer :=
  if room : Rtp.headerLength + Fragment.headerLength + cipher.overhead < mtu then
    if 0x7f < payloadType then .error (.setting (.payloadTypeTooWide payloadType))
    else if Rtcp.collides payloadType then .error (.setting (.payloadTypeCollides payloadType))
    else .ok { payloadType, ssrc, mtu, cipher, room }
  else .error (.setting (.mtuTooSmall mtu (leastMtu cipher)))

/-- Number the next packet `start`. -/
def startAt (p : Packetizer) (start : Serial) : Packetizer := { p with counter := ⟨start⟩ }

/-- The number that the next packet will take. -/
def nextSequence (p : Packetizer) : Serial := p.counter.peek

def budget (p : Packetizer) : Budget where
  whole := p.mtu - Rtp.headerLength - p.cipher.overhead
  piece := p.mtu - Rtp.headerLength - Fragment.headerLength - p.cipher.overhead

theorem budget_piece_pos (p : Packetizer) : 0 < p.budget.piece := by
  have := p.room
  simp only [budget]
  omega

def sets (p : Packetizer) : ParameterSets := ⟨p.sequenceSet, p.pictureSet⟩

def capture (p : Packetizer) (nal : Bytes) : Packetizer :=
  let sets := p.sets.capture nal
  { p with sequenceSet := sets.sequence, pictureSet := sets.picture }

def profileLevelId (p : Packetizer) : Option String := p.sets.profileLevelId

def parameterSets (p : Packetizer) : Option String := p.sets.text

/-! ## One packet -/

/-- Number and encrypt one packet; nothing comes out when the cipher fails or exceeds its overhead. -/
def emit (p : Packetizer) (timestamp : UInt32) (d : Draft) : Option Bytes × Packetizer :=
  let (sequence, counter) := p.counter.next
  let header : Rtp.Header := ⟨d.marker, p.payloadType, sequence, timestamp, p.ssrc⟩
  let packet := match p.cipher.encrypt header.packetMeta d.payload with
    | .error _ => none
    | .ok payload =>
      if d.payload.length + p.cipher.overhead < payload.length then none else some (header.write ++ payload)
  (packet, { p with counter })

/-! ## The packets of a unit -/

/-- How far an access unit has been turned into packets. -/
structure Cursor where
  timestamp : UInt32
  /-- The NAL units not yet finished. -/
  nals : List Bytes
  /-- What is left of the first of them, once it has been cut. -/
  rest : Option Bytes := none
  deriving DecidableEq, Repr

namespace Cursor

/-- The fragment that carries the next piece of a NAL unit's body, and what is left of the body. -/
def cutPiece (b : Budget) (header : UInt8) (isFirst : Bool) (body : Bytes) : Fragment × Bytes :=
  let left := body.drop b.piece
  (⟨header, Nal.typeOf header, isFirst, left.isEmpty, body.take b.piece⟩, left)

/-- Send the next piece of the first NAL unit. -/
def stepPiece (b : Budget) (c : Cursor) (header : UInt8) (isFirst : Bool) (body : Bytes) (later : List Bytes) :
    Draft × Cursor :=
  let (f, left) := cutPiece b header isFirst body
  (⟨later.isEmpty && left.isEmpty, f.write⟩,
    if left.isEmpty then { c with nals := later, rest := none } else { c with rest := some left })

/-- The next packet to be made, if any is left. -/
def step (b : Budget) (c : Cursor) : Option (Draft × Cursor) :=
  match c.nals with
  | [] => none
  | nal :: later =>
    match c.rest with
    | some body => some (stepPiece b c (nal.headD 0) false body later)
    | none =>
      if nal.length ≤ b.whole then some (⟨later.isEmpty, nal⟩, { c with nals := later })
      else some (stepPiece b c (nal.headD 0) true nal.tail later)

/-- A bound on the number of packets that NAL units take. -/
def load : List Bytes → Nat
  | [] => 0
  | nal :: rest => nal.length + 2 + load rest

/-- A bound on the number of packets that are left. -/
def weight (c : Cursor) : Nat :=
  match c.rest with
  | none => load c.nals
  | some body => body.length + 1 + load c.nals.tail

theorem step_weight {b : Budget} (hb : 0 < b.piece) {c c' : Cursor} {d : Draft} (h : c.step b = some (d, c')) :
    c'.weight < c.weight := by
  have piece : ∀ (header : UInt8) (isFirst : Bool) (body : Bytes) (nal : Bytes) (later : List Bytes),
      c.nals = nal :: later →
      (stepPiece b c header isFirst body later).2.weight
        ≤ body.length + load later := by
    intro header isFirst body nal later hn
    by_cases hl : (body.drop b.piece).isEmpty = true
    · simp only [stepPiece, cutPiece, hl, ↓reduceIte, weight]
      omega
    · have : body.length ≠ 0 := by
        intro h0
        simp [List.length_eq_zero_iff.mp h0] at hl
      simp only [stepPiece, cutPiece, hl, ↓reduceIte, Bool.false_eq_true, weight, hn, List.tail_cons, List.length_drop]
      omega
  unfold step at h
  split at h
  · cases h
  · rename_i nal later hn
    split at h
    · rename_i body hr
      have := piece (nal.headD 0) false body nal later hn
      rw [Option.some.inj h] at this
      simp only [weight, hr, hn, List.tail_cons] at this ⊢
      omega
    · rename_i hr
      split at h
      · cases Option.some.inj h
        simp only [weight, hr, hn, load]
        omega
      · have := piece (nal.headD 0) true nal.tail nal later hn
        rw [Option.some.inj h] at this
        simp only [weight, hr, hn, load, List.length_tail] at this ⊢
        omega

end Cursor

/-- Begin an access unit.  Its parameter sets are kept at once, whether or not any packet is asked for. -/
def begin (p : Packetizer) (u : AccessUnit) : Cursor × Packetizer :=
  let nals := AnnexB.nalUnits u.bytes
  ({ timestamp := u.timestamp, nals }, nals.foldl capture p)

/-- The next packet that comes out, passing over those that the cipher keeps back. -/
def next (p : Packetizer) (c : Cursor) : Option Bytes × Packetizer × Cursor :=
  match _h : c.step p.budget with
  | none => (none, p, c)
  | some (d, c') =>
    match p.emit c.timestamp d with
    | (some packet, p') => (some packet, p', c')
    | (none, p') => next p' c'
termination_by c.weight
decreasing_by exact Cursor.step_weight p.budget_piece_pos _h

/-- At most `n` packets, in order. -/
def pull : Nat → Packetizer → Cursor → List Bytes × Packetizer × Cursor
  | 0, p, c => ([], p, c)
  | n + 1, p, c =>
    match p.next c with
    | (none, p, c) => ([], p, c)
    | (some packet, p, c) =>
      let (packets, p, c) := pull n p c
      (packet :: packets, p, c)

def packets (p : Packetizer) (u : AccessUnit) : List Bytes × Packetizer :=
  let (c, p) := p.begin u
  let (packets, p, _) := p.pull c.weight c
  (packets, p)

end Packetizer
end VideoTransport
