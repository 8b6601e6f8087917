import VideoTransport.Nal.AnnexB
/-!
# Picture — made-up access units

A made-up access unit has the shape of a real one: a key frame brings both parameter sets, and the picture itself is
filler without zeros, so that no start code can arise in it.  The memory for it is asked for in one piece, before the
first octet is written.
-/
namespace VideoTransport
namespace Loopback
namespace Picture

def sequenceSet : Bytes := [0x67, 0x42, 0x00, 0x1f, 0xe9, 0x02, 0xc1]

def pictureSet : Bytes := [0x68, 0xce, 0x38, 0x80]

def header (isKeyFrame : Bool) : UInt8 := if isKeyFrame then 0x65 else 0x41

def parameterSets (isKeyFrame : Bool) : List Bytes := if isKeyFrame then [sequenceSet, pictureSet] else []

/-- Octets that count from `index` on through all values but zero, round and round. -/
def filler (index length : Nat) : Bytes := (List.range length).map fun i => UInt8.ofNat ((index + i) % 255 + 1)

/-- The octets in front of the filler. -/
def overhead (isKeyFrame : Bool) : Nat := (AnnexB.join (parameterSets isKeyFrame ++ [[header isKeyFrame]])).length

/-- The NAL units of the access unit number `index`, which takes `size` octets unless that leaves no filler. -/
def nals (index size : Nat) (isKeyFrame : Bool) : List Bytes :=
  parameterSets isKeyFrame ++ [header isKeyFrame :: filler index (max (size - overhead isKeyFrame) 1)]

def bitstream (index size : Nat) (isKeyFrame : Bool) : Bytes := AnnexB.join (nals index size isKeyFrame)

/-- Make the access unit number `index`, unless it is to be longer than any piece of memory. -/
def make (index size : Nat) (isKeyFrame : Bool) : Option Bytes :=
  if Bytes.longest < size then none else some (bitstream index size isKeyFrame)

theorem make_of_fits {size : Nat} (h : size ≤ Bytes.longest) (index : Nat) (isKeyFrame : Bool) :
    make index size isKeyFrame = some (bitstream index size isKeyFrame) := if_neg (Nat.not_lt.2 h)

theorem make_of_oversized {size : Nat} (h : Bytes.longest < size) (index : Nat) (isKeyFrame : Bool) :
    make index size isKeyFrame = none := if_pos h

end Picture
end Loopback
end VideoTransport
