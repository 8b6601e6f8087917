import VideoTransport.Loopback.Picture
import VideoTransport.Proofs.Fragmentation
import VideoTransport.Proofs.Splitting
/-!
# Joining — made-up pictures joined and cut again

NAL units in which no start code opens are cut from the bitstream they are joined to, each as it was
(`AnnexB.nalUnits_join`).  The units of made-up pictures are of this kind, whatever their number and size
(`Picture.nalUnits_bitstream`).
-/
namespace VideoTransport
namespace Loopback
namespace Picture

theorem filler_ne_zero (index length : Nat) : ∀ b ∈ filler index length, b ≠ 0 := by
  intro b hb
  obtain ⟨i, -, rfl⟩ := List.mem_map.1 hb
  rw [Ne, ← UInt8.toNat_inj, UInt8.toNat_ofNat']
  have hlt := Nat.mod_lt (index + i) (show 0 < 255 by decide)
  rw [Nat.mod_eq_of_lt (by omega)]
  exact Nat.succ_ne_zero _

/-- Each NAL unit of a made-up picture holds something, has no start code in it, and is of a type that packets carry. -/
theorem nals_sound (index size : Nat) (isKeyFrame : Bool) : ∀ nal ∈ nals index size isKeyFrame,
    nal ≠ [] ∧ AnnexB.holdsStartCode nal = false ∧ Nal.isCarriable nal = true := by
  have hsets : ∀ nal ∈ parameterSets isKeyFrame,
      nal ≠ [] ∧ AnnexB.holdsStartCode nal = false ∧ Nal.isCarriable nal = true := by
    cases isKeyFrame <;> decide
  have hheader : header isKeyFrame ≠ 0 ∧ Nal.isCarriable [header isKeyFrame] = true := by
    cases isKeyFrame <;> decide
  intro nal hnal
  rcases List.mem_append.1 hnal with hset | hpicture
  · exact hsets nal hset
  · obtain rfl := List.mem_singleton.1 hpicture
    refine ⟨List.cons_ne_nil _ _, AnnexB.holdsStartCode_of_nonzero ?_, hheader.2⟩
    exact List.forall_mem_cons.2 ⟨hheader.1, filler_ne_zero index _⟩

theorem nals_ne_nil (index size : Nat) (isKeyFrame : Bool) : nals index size isKeyFrame ≠ [] :=
  List.append_ne_nil_of_right_ne_nil _ (List.cons_ne_nil _ _)

/-- **No start code arises in the filler**: a made-up bitstream is cut into the NAL units that were meant. -/
theorem nalUnits_bitstream (index size : Nat) (isKeyFrame : Bool) :
    AnnexB.nalUnits (bitstream index size isKeyFrame) = nals index size isKeyFrame :=
  AnnexB.nalUnits_join (fun nal hnal => (nals_sound index size isKeyFrame nal hnal).1) fun nal hnal =>
    (nals_sound index size isKeyFrame nal hnal).2.1

end Picture
end Loopback
end VideoTransport
