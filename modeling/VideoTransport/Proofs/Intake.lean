import VideoTransport.Inbound.Receiver
import VideoTransport.Proofs.Following
import VideoTransport.Proofs.Reordering
/-!
# Intake — what one datagram does to a receiver

A datagram that reads as a packet goes into the reorder buffer, and what is ready then is assembled
(`Receiver.processMedia_of_parse`).  The packets of a stream that leave the buffer together carry a gapless range of
positions (`Packetizer.packetsAt`).
-/
namespace VideoTransport

open Serial (nth)

/-- A datagram on its way to a receiver. -/
structure Arrival where
  /-- Its position in the stream. -/
  position : Nat
  datagram : Bytes
  /-- When it arrives, in units of the media clock. -/
  time : UInt32

namespace Packetizer

variable {p : Packetizer} {units : List AccessUnit} {i : Nat}

def IsSent (p : Packetizer) (units : List AccessUnit) (i : Nat) : Prop :=
  ∃ datagram, (p.issued units)[i]? = some (some datagram)

/-- The packet that the datagram sent from position `i` reads as. -/
def packetAt (p : Packetizer) (units : List AccessUnit) (i : Nat) : Rtp.Packet :=
  (((p.issued units)[i]?.join).bind fun datagram => (Rtp.Packet.parse datagram).toOption).getD ⟨⟨false, 0, 0, 0, 0⟩, []⟩

theorem IsSent.place (h : p.IsSent units i) : Nonempty (Place p units i) := by
  obtain ⟨datagram, h⟩ := h
  refine Place.exist ?_
  rw [← length_issued]
  exact (List.getElem?_eq_some_iff.1 h).1

theorem Place.parse_packetAt (x : Place p units i) {datagram : Bytes}
    (h : (p.issued units)[i]? = some (some datagram)) :
    Rtp.Packet.parse datagram = .ok (p.packetAt units i) ∧ x.Carries (p.packetAt units i) := by
  obtain ⟨packet, hp, hc⟩ := x.parse h
  have heq : p.packetAt units i = packet := by
    rw [packetAt, h]
    show ((Rtp.Packet.parse datagram).toOption).getD _ = packet
    rw [hp]
    rfl
  rw [heq]
  exact ⟨hp, hc⟩

theorem IsSent.carries (h : p.IsSent units i) (x : Place p units i) : x.Carries (p.packetAt units i) := by
  obtain ⟨datagram, h⟩ := h
  exact (x.parse_packetAt h).2

def packetsAt (p : Packetizer) (units : List AccessUnit) (m n : Nat) : List Rtp.Packet :=
  (List.range' m n).map (p.packetAt units)

theorem packetsAt_add_one (p : Packetizer) (units : List AccessUnit) (m n : Nat) :
    p.packetsAt units m (n + 1) = p.packetAt units m :: p.packetsAt units (m + 1) n := by
  rw [packetsAt, List.range'_succ, List.map_cons]
  rfl

end Packetizer

namespace Receiver

theorem create_eq_ok {settings : ReceiverSettings} {cipher : Cipher} {r : Receiver}
    (h : create settings cipher = .ok r) :
    settings.fault? = none ∧ r.reorder = Reorder.ofCapacity settings.reorderCapacity ∧
      r.assembler = Assembler.create cipher (Pool.ofLimit settings.poolCapacity) settings.maxAssemblies ∧
      r.counters = {} := by
  unfold create ReceiverSettings.validate at h
  cases hf : settings.fault? with
  | some fault =>
    rw [hf] at h
    cases h
  | none =>
    rw [hf] at h
    obtain rfl := Except.ok.inj h
    exact ⟨rfl, rfl, rfl, rfl⟩

/-! ## One datagram -/

/-- The units that a datagram brought the caller. -/
def Received.returned (got : Received) : List AccessUnit :=
  match got.result with
  | .ok units => units
  | .error _ => []

/-- Units that are counted one after another are counted at once. -/
theorem repeat_recordUnitReceived (count : Nat) (c : Counters) :
    count.repeat Counters.recordUnitReceived c = { c with unitsReceived := c.unitsReceived + UInt64.ofNat count } := by
  induction count with
  | zero =>
    show c = { c with unitsReceived := c.unitsReceived + 0 }
    rw [UInt64.add_zero]
  | succ n ih =>
    show (n.repeat Counters.recordUnitReceived c).recordUnitReceived = _
    rw [ih, UInt64.ofNat_add, ← UInt64.add_assoc]
    rfl

/-- **What comes of a datagram** is what comes of the packets that are ready then. -/
theorem processMedia_of_parse (r : Receiver) {datagram : Bytes} (arrival : UInt32) {packet : Rtp.Packet}
    (hp : Rtp.Packet.parse datagram = .ok packet) {ready : List Rtp.Packet} {batch : Batch}
    (hready : (r.reorder.add packet.header.sequence packet).popReady.1 = ready)
    (hbatch : assemble r.assembler ready = batch) :
    (r.processMedia datagram arrival).shown = batch.completed ∧
      (r.processMedia datagram arrival).result =
        (match batch.failure with
          | none => .ok batch.completed
          | some fault => .error fault) ∧
      (r.processMedia datagram arrival).receiver.reorder =
        (r.reorder.add packet.header.sequence packet).popReady.2 ∧
      (r.processMedia datagram arrival).receiver.counters.framesDropped = UInt64.ofNat batch.assembler.stats.dropped ∧
      (r.processMedia datagram arrival).receiver.assembler =
        (match batch.failure with
          | none => batch.assembler
          | some _ =>
            { batch.assembler with pool := AccessUnit.releaseAll batch.completed batch.assembler.pool }) := by
  subst hready hbatch
  have hdropped : ∀ c : Counters, ∀ k n : Nat, ∀ count : UInt64,
      (k.repeat Counters.recordUnitReceived
        ((c.setFramesDropped (UInt64.ofNat n)).recordMalformed count)).framesDropped = UInt64.ofNat n := by
    intro c k n count
    rw [repeat_recordUnitReceived]
    rfl
  unfold processMedia
  simp only [hp]
  generalize hr :
    ({ r with counters := r.counters.recordReceived datagram.length } : Receiver).note packet.header arrival = r'
  have h1 : r'.reorder = r.reorder := by rw [← hr]; rfl
  have h2 : r'.assembler = r.assembler := by rw [← hr]; rfl
  simp only [h1, h2]
  cases hf : (assemble r.assembler (r.reorder.add packet.header.sequence packet).popReady.1).failure with
  | none => exact ⟨rfl, rfl, rfl, hdropped _ _ _ _, rfl⟩
  | some fault => exact ⟨rfl, rfl, rfl, hdropped _ _ _ _, rfl⟩

/-- Only units that are shown are returned. -/
theorem returned_sublist (r : Receiver) (datagram : Bytes) (arrival : UInt32) :
    (r.processMedia datagram arrival).returned.Sublist (r.processMedia datagram arrival).shown := by
  cases hp : Rtp.Packet.parse datagram with
  | error reason =>
    unfold processMedia
    simp only [hp]
    exact List.Sublist.refl _
  | ok packet =>
    obtain ⟨hshown, hresult, -⟩ := r.processMedia_of_parse arrival hp rfl rfl
    rw [hshown, Received.returned, hresult]
    split
    · rename_i units hu
      split at hu
      · obtain rfl := Except.ok.inj hu
        exact List.Sublist.refl _
      · cases hu
    · exact List.nil_sublist _

/-! ## Packets that leave together -/

theorem assemble_cons (a : Assembler) (packet : Rtp.Packet) (rest : List Rtp.Packet) :
    assemble a (packet :: rest) =
      match (a.process packet).2 with
      | .error fault => ⟨(a.process packet).1, [], some fault, rest⟩
      | .ok none => assemble (a.process packet).1 rest
      | .ok (some unit) =>
        { assemble (a.process packet).1 rest with
          completed := unit :: (assemble (a.process packet).1 rest).completed } := by
  rw [assemble]
  generalize a.process packet = result
  obtain ⟨b, outcome⟩ := result
  cases outcome with
  | error fault => rfl
  | ok unit => cases unit <;> rfl

theorem assemble_singleton {a : Assembler} {packet : Rtp.Packet} {due : Option AccessUnit}
    (h : (a.process packet).2 = a.pool.grant due) :
    (assemble a [packet]).assembler = (a.process packet).1 ∧
      (assemble a [packet]).completed = (a.pool.granted due).toList ∧
      (a.pool.HasRoom → (assemble a [packet]).failure = none) := by
  rw [assemble_cons, h]
  cases due with
  | none =>
    rw [Pool.granted_none]
    exact ⟨rfl, rfl, fun _ => rfl⟩
  | some unit => by_cases hroom : a.pool.HasRoom <;> simp [Pool.grant, Pool.granted, hroom, assemble]

end Receiver

/-- A packet of the sample stream on its way. -/
def sampleArrival (i : Nat) : Arrival :=
  ⟨i, ((Packetizer.plain.issued Packetizer.sample)[i]?.join).getD [], 0⟩

end VideoTransport
