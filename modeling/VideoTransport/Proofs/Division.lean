import Mathlib.Data.List.Forall2
import VideoTransport.Proofs.Capacity
import VideoTransport.Proofs.Following
/-!
# Division — what packets carry of a NAL unit

A NAL unit that fits into a packet is carried whole.  Any other is divided: into at least two fragments, for the sizes
that a packetizer reckons with are two octets apart, each of them full but the last, and marked as the first and the
last of their kind (`Plan.IsDivision`).  So do the packets of an access unit carry its NAL units, one after another, if
the cipher lets every payload out (`Packetizer.packets_carry`).
-/
namespace VideoTransport

open Serial (nth)

/-- The bit of a fragment header between its flags and its type. -/
theorem Fragment.reserved_flags {f : Fragment} (h : Nal.typeOf f.kind = f.kind) : f.flags &&& 0x20 = 0 := by
  rw [flags, or_and_mask, ← h, Nal.typeOf, and_disjoint _ (by decide), UInt8.or_zero]
  cases f.isFirst <;> cases f.isLast <;> decide

namespace Plan

/-! ## Slices -/

/-- Every slice holds something, and every slice but the last one is full. -/
theorem slices_full {size : Nat} (hs : 0 < size) : ∀ {data : Bytes} {i : Nat} {piece : Bytes},
    (slices size data)[i]? = some piece →
    piece ≠ [] ∧ piece.length ≤ size ∧ (i + 1 ≠ (slices size data).length → piece.length = size) := by
  intro data i piece h
  have hdata : data ≠ [] := by
    rintro rfl
    cases h
  have hpos := List.length_pos_iff.2 hdata
  have hless : (data.drop size).length < data.length := by
    rw [List.length_drop]
    omega
  rw [slices_cons hs hdata] at h ⊢
  cases i with
  | zero =>
    obtain rfl := Option.some.inj h
    refine ⟨fun hnil => ?_, List.length_take_le _ _, fun hmore => ?_⟩
    · rcases List.take_eq_nil_iff.1 hnil with hzero | hnil
      · exact absurd hzero (Nat.ne_of_gt hs)
      · exact hdata hnil
    · have hrest : data.drop size ≠ [] := by
        intro hnil
        rw [hnil] at hmore
        exact hmore rfl
      rw [Ne, List.drop_eq_nil_iff] at hrest
      exact List.length_take_of_le (by omega)
  | succ i =>
    rw [List.getElem?_cons_succ] at h
    obtain ⟨hne, hle, hfull⟩ := slices_full hs h
    exact ⟨hne, hle, fun hmore => hfull fun hlast => hmore (congrArg (· + 1) hlast)⟩
termination_by data => data.length

theorem two_le_length_slices {size : Nat} (hs : 0 < size) {data : Bytes} (h : size < data.length) :
    2 ≤ (slices size data).length := by
  have hdata : data ≠ [] := List.length_pos_iff.1 (by omega)
  have hrest : data.drop size ≠ [] := fun hnil => Nat.not_lt.2 (List.drop_eq_nil_iff.1 hnil) h
  rw [slices_cons hs hdata, slices_cons hs hrest, List.length_cons, List.length_cons]
  omega

/-! ## Payloads -/

/-- Payloads that carry a NAL unit in pieces of `size` octets.  The first octet of each has the upper three bits of the
NAL header and the type 28; the second has the type of the NAL unit, and the uppermost bit in the first payload only and
the one below it in the last only; and then there is a piece of the body. -/
structure IsDivision (size : Nat) (header : UInt8) (body : Bytes) (payloads : List Bytes) : Prop where
  two_le_length : 2 ≤ payloads.length
  octets : ∀ i payload, payloads[i]? = some payload → ∃ flags piece,
    payload = (header &&& 0xe0 ||| 28) :: flags :: piece ∧
    (flags &&& 0x1f = header &&& 0x1f ∧ flags &&& 0x20 = 0 ∧ (flags &&& 0x80 ≠ 0 ↔ i = 0) ∧
      (flags &&& 0x40 ≠ 0 ↔ i + 1 = payloads.length) ∧ ¬(flags &&& 0x80 ≠ 0 ∧ flags &&& 0x40 ≠ 0)) ∧
    piece ≠ [] ∧ piece.length ≤ size ∧ (i + 1 ≠ payloads.length → piece.length = size)
  bodies : (payloads.map (·.drop 2)).flatten = body

/-- Payloads that carry a NAL unit: itself if it has at most `whole` octets, and else its pieces. -/
def Carries (whole size : Nat) (nal : Bytes) (payloads : List Bytes) : Prop :=
  if nal.length ≤ whole then payloads = [nal]
  else ∃ header body, nal = header :: body ∧ IsDivision size header body payloads

theorem isDivision_fragments {size : Nat} (hs : 0 < size) (header : UInt8) {body : Bytes} (h : size < body.length) :
    IsDivision size header body ((fragments size header body).map Fragment.write) := by
  have htwo := two_le_length_slices hs h
  have hlength : ((fragments size header body).map Fragment.write).length = (slices size body).length := by
    rw [List.length_map, fragments, List.length_mapIdx]
  refine ⟨hlength ▸ htwo, fun i payload hi => ?_, ?_⟩
  · rw [List.getElem?_map, fragments, List.getElem?_mapIdx, Option.map_map] at hi
    obtain ⟨piece, hpiece, rfl⟩ := Option.map_eq_some_iff.1 hi
    rw [hlength]
    let f : Fragment :=
      ⟨header, Nal.typeOf header, decide (i = 0), decide (i + 1 = (slices size body).length), piece⟩
    have hkind : Nal.typeOf f.kind = f.kind := Nal.typeOf_typeOf header
    have hfirst : f.flags &&& 0x80 ≠ 0 ↔ i = 0 := decide_eq_decide.1 (Fragment.isFirst_flags hkind)
    have hlast : f.flags &&& 0x40 ≠ 0 ↔ i + 1 = (slices size body).length :=
      decide_eq_decide.1 (Fragment.isLast_flags hkind)
    refine ⟨f.flags, piece, rfl, ⟨Fragment.typeOf_flags hkind, Fragment.reserved_flags hkind, hfirst, hlast, ?_⟩,
      slices_full hs hpiece⟩
    rw [hfirst, hlast]
    omega
  · have hbodies : ((fragments size header body).map Fragment.write).map (·.drop 2) = slices size body := by
      refine List.ext_getElem? fun i => ?_
      rw [List.getElem?_map, List.getElem?_map, fragments, List.getElem?_mapIdx, Option.map_map, Option.map_map]
      exact congrFun Option.map_id _
    rw [hbodies, flatten_slices hs]

theorem carries_payloads {b : Budget} (hs : 0 < b.piece) (h : b.piece < b.whole) (nal : Bytes) :
    Carries b.whole b.piece nal (payloads b nal) := by
  unfold Carries payloads
  split
  · rfl
  · rename_i hlong
    cases nal with
    | nil => exact absurd (Nat.zero_le _) hlong
    | cons header body =>
      have hbody : b.piece < body.length := by
        rw [List.length_cons] at hlong
        omega
      exact ⟨header, body, rfl, isDivision_fragments hs header hbody⟩

end Plan

/-! ## Packets -/

namespace Packetizer

variable {p : Packetizer}

theorem packets_of_dependable (hc : p.cipher.IsDependable) (u : AccessUnit) :
    (p.packets u).1.map some = p.issue (p.plan u) := by
  obtain ⟨packets, hissue⟩ := issue_of_dependable (p.plan u) p hc
  obtain ⟨s, t, hpackets⟩ := p.packets_eq u
  rw [hpackets, hissue, List.filterMap_map]
  exact congrArg (List.map some) List.filterMap_some

/-- The plan of a unit is its payloads, the last one with the marker. -/
theorem getElem?_plan (u : AccessUnit) {payloads : List Bytes}
    (h : (AnnexB.nalUnits u.bytes).flatMap (Plan.payloads p.budget) = payloads) {i : Nat} {payload : Bytes}
    (hi : payloads[i]? = some payload) :
    (p.plan u)[i]? = some (u.timestamp, ⟨decide (i + 1 = payloads.length), payload⟩) := by
  have hdrafts : (p.drafts u).map (·.payload) = payloads := (Plan.payload_markLast _).trans h
  rw [← hdrafts, List.getElem?_map] at hi
  obtain ⟨⟨marker, _⟩, hd, rfl⟩ := Option.map_eq_some_iff.1 hi
  have hmarker : marker = decide (i + 1 = payloads.length) := by
    rw [Bool.eq_iff_iff, decide_eq_true_eq, ← h]
    exact Plan.marker_markLast hd
  rw [plan, List.getElem?_map, hd, hmarker]
  rfl

/-- **Packets carry the NAL units of a unit one after another.**  Take any packetizer, so one with room for a fragment,
and a cipher that never fails and keeps to its overhead.  Before they are encrypted, the payloads of the packets of an
access unit fall into groups, one for each of its NAL units in their order.  The group of a NAL unit with no more octets
than a header and the cipher leave is this NAL unit alone.  That of a longer one are at least two fragments, which hold
what `Plan.IsDivision` says, and all but the last a piece of as many octets as the fragment header leaves.  Every
payload is that of one packet, encrypted, and there are no other packets. -/
theorem packets_carry (hc : p.cipher.IsDependable) (u : AccessUnit) : ∃ groups : List (List Bytes),
    List.Forall₂ (Plan.Carries (p.mtu - 12 - p.cipher.overhead) (p.mtu - 14 - p.cipher.overhead))
      (AnnexB.nalUnits u.bytes) groups ∧
    (p.packets u).1.length = groups.flatten.length ∧
    ∀ i payload, groups.flatten[i]? = some payload →
      let header : Rtp.Header :=
        ⟨decide (i + 1 = groups.flatten.length), p.payloadType, nth p.nextSequence i, u.timestamp, p.ssrc⟩
      ∃ cover, p.cipher.encrypt header.packetMeta payload = .ok cover ∧
        (p.packets u).1[i]? = some (header.write ++ cover) := by
  obtain ⟨hwhole, hpiece, hpos⟩ := p.budget_sizes
  let groups := (AnnexB.nalUnits u.bytes).map (Plan.payloads p.budget)
  have hplan {i : Nat} {payload : Bytes} (hi : groups.flatten[i]? = some payload) :=
    p.getElem?_plan u List.flatMap_def hi
  refine ⟨groups, ?_, ?_, fun i payload hi => ?_⟩
  · refine List.forall₂_map_right_iff.2 (List.forall₂_same.2 fun nal _ => ?_)
    exact Plan.carries_payloads hpos (by omega) nal
  · have hlength := congrArg List.length (packets_of_dependable hc u)
    rw [List.length_map, length_issue, plan, List.length_map, drafts, Plan.drafts, Plan.length_markLast,
      List.flatMap_def] at hlength
    exact hlength
  · intro header
    obtain ⟨cover, hencrypt, hlength⟩ := hc header.packetMeta payload
    have hemit : ((p.startAt (nth p.nextSequence i)).emit u.timestamp ⟨header.marker, payload⟩).1 =
        some (header.write ++ cover) := emit_of_encrypt hencrypt hlength
    have hissued := getElem?_issue (p.plan u) p i
    rw [hplan hi, Option.map_some, hemit, ← packets_of_dependable hc u, List.getElem?_map] at hissued
    exact ⟨cover, hencrypt, Option.map_injective (fun _ _ => Option.some.inj) hissued⟩

end Packetizer
end VideoTransport
