import VideoTransport.Inbound.Frame
import VideoTransport.Outbound.Plan
import VideoTransport.Proofs.Wire
/-!
# Fragmentation — a frame that hears all planned payloads holds the NAL units again

`Plan.payloads` says which payloads carry a NAL unit.  A frame that hears them in order, with no fragments under way,
ends with that NAL unit added (`hear_payloads`), and so does a whole access unit (`hear_unit`).  A frame that begins to
listen in the middle of a NAL unit breaks at once (`hear_drop`).
-/
namespace VideoTransport

/-! ## Slices -/

namespace Plan

theorem slicesWithin_nil (size : Nat) : ∀ fuel, slicesWithin size fuel [] = []
  | 0 => rfl
  | _ + 1 => rfl

theorem slicesWithin_cons (size fuel : Nat) (a : UInt8) (data : Bytes) :
    slicesWithin size (fuel + 1) (a :: data) =
      (a :: data).take size :: slicesWithin size fuel ((a :: data).drop size) := rfl

theorem length_drop_cons_le {size : Nat} (hs : 0 < size) (a : UInt8) (data : Bytes) :
    ((a :: data).drop size).length ≤ data.length := by
  simp only [List.length_drop, List.length_cons]
  omega

/-- Fuel beyond the length changes nothing. -/
theorem slicesWithin_congr {size : Nat} (hs : 0 < size) : ∀ {m n : Nat} {data : Bytes}, data.length ≤ m →
    data.length ≤ n → slicesWithin size m data = slicesWithin size n data
  | m, n, [], _, _ => by rw [slicesWithin_nil, slicesWithin_nil]
  | 0, _, _ :: _, hm, _ => absurd hm (Nat.not_succ_le_zero _)
  | _ + 1, 0, _ :: _, _, hn => absurd hn (Nat.not_succ_le_zero _)
  | m + 1, n + 1, a :: data, hm, hn => by
    have hl := length_drop_cons_le hs a data
    rw [slicesWithin_cons, slicesWithin_cons,
      slicesWithin_congr hs (Nat.le_trans hl (Nat.le_of_succ_le_succ hm)) (Nat.le_trans hl (Nat.le_of_succ_le_succ hn))]

theorem slices_cons {size : Nat} (hs : 0 < size) {data : Bytes} (h : data ≠ []) :
    slices size data = data.take size :: slices size (data.drop size) := by
  cases data with
  | nil => exact absurd rfl h
  | cons a data =>
    rw [slices, List.length_cons, slicesWithin_cons,
      slicesWithin_congr hs (length_drop_cons_le hs a data) (Nat.le_refl _), slices]

theorem slices_eq_nil_iff {size : Nat} (hs : 0 < size) (data : Bytes) : slices size data = [] ↔ data = [] := by
  constructor
  · intro h
    by_cases hd : data = []
    · exact hd
    · rw [slices_cons hs hd] at h
      cases h
  · rintro rfl
    rfl

/-- **Slices put together are what was sliced.** -/
theorem flatten_slices {size : Nat} (hs : 0 < size) (data : Bytes) : (slices size data).flatten = data := by
  by_cases h : data = []
  · subst h
    rfl
  · have : (data.drop size).length < data.length := by
      have := List.length_pos_iff.2 h
      simp only [List.length_drop]
      omega
    rw [slices_cons hs h, List.flatten_cons, flatten_slices hs (data.drop size), List.take_append_drop]
termination_by data.length

/-! ## Fragments -/

/-- The fragments that carry pieces of a NAL unit to its end; only the foremost of them may be its first one. -/
def train (header : UInt8) : Bool → List Bytes → List Fragment
  | _, [] => []
  | isFirst, piece :: rest =>
    ⟨header, Nal.typeOf header, isFirst, rest.isEmpty, piece⟩ :: train header false rest

theorem mapIdx_train (header : UInt8) : ∀ (pieces : List Bytes) (k n : Nat), k + pieces.length = n →
    pieces.mapIdx (fun i piece =>
      (⟨header, Nal.typeOf header, decide (i + k = 0), decide (i + k + 1 = n), piece⟩ : Fragment)) =
        train header (decide (k = 0)) pieces
  | [], _, _, _ => rfl
  | piece :: rest, k, n, h => by
    have hrest := mapIdx_train header rest (k + 1) n (by simp only [List.length_cons] at h; omega)
    have hlast : decide (0 + k + 1 = n) = rest.isEmpty := by
      simp only [List.length_cons] at h
      cases rest
      · simp only [List.length_nil] at h
        simp only [List.isEmpty_nil, decide_eq_true_eq]
        omega
      · simp only [List.length_cons] at h
        simp only [List.isEmpty_cons, decide_eq_false_iff_not]
        omega
    have hidx : ∀ i, i + 1 + k = i + (k + 1) := fun i => by omega
    rw [List.mapIdx_cons, train, hlast, Nat.zero_add]
    simp only [hidx]
    rw [hrest]
    simp

theorem fragments_eq_train (size : Nat) (header : UInt8) (body : Bytes) :
    fragments size header body = train header true (slices size body) :=
  mapIdx_train header (slices size body) 0 (slices size body).length (Nat.zero_add _)

theorem length_train (header : UInt8) : ∀ (isFirst : Bool) (pieces : List Bytes),
    (train header isFirst pieces).length = pieces.length
  | _, [] => rfl
  | _, _ :: rest => by rw [train, List.length_cons, length_train header false rest, List.length_cons]

theorem drop_train (header : UInt8) : ∀ (k : Nat) (isFirst : Bool) (pieces : List Bytes),
    (train header isFirst pieces).drop (k + 1) = train header false (pieces.drop (k + 1))
  | _, _, [] => rfl
  | 0, _, _ :: _ => rfl
  | k + 1, _, _ :: rest => drop_train header k false rest

theorem payloads_whole {b : Budget} {nal : Bytes} (h : nal.length ≤ b.whole) : payloads b nal = [nal] := by
  unfold payloads
  rw [if_pos h]

theorem payloads_cut {b : Budget} {header : UInt8} {body : Bytes} (h : b.whole < (header :: body).length) :
    payloads b (header :: body) = (train header true (slices b.piece body)).map Fragment.write := by
  rw [payloads, if_neg (Nat.not_le.2 h), ← fragments_eq_train]

end Plan

/-! ## What a frame makes of them -/

namespace Nal

theorem typeOf_typeOf (header : UInt8) : typeOf (typeOf header) = typeOf header := by
  rw [typeOf, typeOf, UInt8.and_assoc, UInt8.and_self]

/-- Whether packets may carry this NAL unit: its type is one of those that travel whole. -/
def isCarriable (nal : Bytes) : Bool := (kind? nal).any isSingle

end Nal

namespace FrameContent

/-- Hear a payload that has been decrypted; one that cannot be read breaks the frame. -/
def hear (c : FrameContent) (data : Bytes) : FrameContent :=
  match Payload.read data with
  | .ok p => c.add p
  | .error _ => .broken

theorem hear_broken (data : Bytes) : hear .broken data = .broken := by
  rw [hear]
  cases Payload.read data <;> rfl

theorem foldl_hear_broken : ∀ payloads : List Bytes, payloads.foldl hear .broken = .broken
  | [] => rfl
  | data :: rest => by rw [List.foldl_cons, hear_broken, foldl_hear_broken rest]

theorem hear_whole {nal : Bytes} (h : Nal.isCarriable nal = true) (nals : List Bytes) :
    (intact nals none).hear nal = .intact (nal :: nals) none := by
  obtain ⟨kind, hk, hs⟩ := (Option.any_eq_true _ _).1 h
  rw [hear, Payload.read_single hk hs]
  rfl

theorem hear_fragment {f : Fragment} (hf : f.kind = Nal.typeOf f.header) (nals : List Bytes)
    (run : Option FragmentRun) :
    (intact nals run).hear f.write = addFragment nals run { f with header := f.indicator } := by
  rw [hear, Fragment.read_write (by rw [hf, Nal.typeOf_typeOf])]
  cases run <;> rfl

theorem hear_first (header : UInt8) (isLast : Bool) (piece : Bytes) (nals : List Bytes) :
    (intact nals none).hear (Fragment.write ⟨header, Nal.typeOf header, true, isLast, piece⟩) =
      close isLast nals ⟨Nal.typeOf header, header, [piece]⟩ := by
  rw [hear_fragment rfl, addFragment, if_pos rfl, Fragment.nalHeader_indicator, Fragment.nalHeader_of_kind rfl]

theorem hear_later (header : UInt8) (isLast : Bool) (piece : Bytes) (nals bodies : List Bytes) :
    (intact nals (some ⟨Nal.typeOf header, header, bodies⟩)).hear
        (Fragment.write ⟨header, Nal.typeOf header, false, isLast, piece⟩) =
      close isLast nals ⟨Nal.typeOf header, header, piece :: bodies⟩ := by
  rw [hear_fragment rfl, addFragment]
  simp only [Bool.false_or, ne_eq, not_true_eq_false, decide_false, Bool.false_eq_true, if_false]

theorem hear_stray (header : UInt8) (isLast : Bool) (piece : Bytes) (nals : List Bytes) :
    (intact nals none).hear (Fragment.write ⟨header, Nal.typeOf header, false, isLast, piece⟩) = .broken := by
  rw [hear_fragment rfl, addFragment]
  simp only [Bool.false_eq_true, if_false]

theorem hear_rest_of_train (header : UInt8) (nals : List Bytes) : ∀ (pieces bodies : List Bytes), pieces ≠ [] →
    ((Plan.train header false pieces).map Fragment.write).foldl hear
        (.intact nals (some ⟨Nal.typeOf header, header, bodies⟩)) =
      .intact ((header :: (bodies.reverse ++ pieces).flatten) :: nals) none
  | [], _, h => absurd rfl h
  | [piece], bodies, _ => by
    rw [Plan.train, List.map_cons, List.foldl_cons, hear_later]
    simp [Plan.train, close, FragmentRun.nal]
  | piece :: next :: rest, bodies, _ => by
    rw [Plan.train, List.map_cons, List.foldl_cons, hear_later, List.isEmpty_cons]
    simp only [close, Bool.false_eq_true, if_false]
    rw [hear_rest_of_train header nals (next :: rest) (piece :: bodies) (by simp)]
    simp

/-- **The fragments of a NAL unit make up the NAL unit.** -/
theorem hear_train (header : UInt8) (nals : List Bytes) : ∀ (pieces : List Bytes), pieces ≠ [] →
    ((Plan.train header true pieces).map Fragment.write).foldl hear (.intact nals none) =
      .intact ((header :: pieces.flatten) :: nals) none
  | [], h => absurd rfl h
  | [piece], _ => by
    rw [Plan.train, List.map_cons, List.foldl_cons, hear_first]
    simp [Plan.train, close, FragmentRun.nal]
  | piece :: next :: rest, _ => by
    rw [Plan.train, List.map_cons, List.foldl_cons, hear_first, List.isEmpty_cons]
    simp only [close, Bool.false_eq_true, if_false]
    rw [hear_rest_of_train header nals (next :: rest) [piece] (by simp)]
    simp

/-! ## NAL units and access units -/

variable {b : Budget}

/-- The type of a NAL unit that is cut does not matter. -/
theorem hear_cut (hp : 0 < b.piece) (hw : 0 < b.whole) {nal : Bytes} (h : b.whole < nal.length) (nals : List Bytes) :
    (Plan.payloads b nal).foldl hear (.intact nals none) = .intact (nal :: nals) none := by
  cases nal with
  | nil => exact absurd h (Nat.not_lt_zero _)
  | cons header body =>
    have hb : body ≠ [] := by
      rintro rfl
      exact Nat.not_lt.2 hw h
    have hs : Plan.slices b.piece body ≠ [] := fun hn => hb ((Plan.slices_eq_nil_iff hp body).1 hn)
    rw [Plan.payloads_cut h, hear_train header nals _ hs, Plan.flatten_slices hp]

/-- **Hearing the payloads of a NAL unit adds the NAL unit.** -/
theorem hear_payloads (hp : 0 < b.piece) (hw : 0 < b.whole) {nal : Bytes} (h : Nal.isCarriable nal = true)
    (nals : List Bytes) : (Plan.payloads b nal).foldl hear (.intact nals none) = .intact (nal :: nals) none := by
  by_cases hl : nal.length ≤ b.whole
  · rw [Plan.payloads_whole hl, List.foldl_cons, hear_whole h, List.foldl_nil]
  · exact hear_cut hp hw (Nat.not_le.1 hl) nals

/-- **Hearing the payloads of an access unit gives its NAL units.** -/
theorem hear_unit (hp : 0 < b.piece) (hw : 0 < b.whole) : ∀ (nals before : List Bytes),
    (∀ nal ∈ nals, Nal.isCarriable nal = true) →
    (nals.flatMap (Plan.payloads b)).foldl hear (.intact before none) = .intact (nals.reverse ++ before) none
  | [], _, _ => rfl
  | nal :: rest, before, h => by
    rw [List.flatMap_cons, List.foldl_append, hear_payloads hp hw (h nal List.mem_cons_self),
      hear_unit hp hw rest (nal :: before) fun n hn => h n (List.mem_cons_of_mem nal hn)]
    simp

/-- Who misses the beginning of a NAL unit hears a stray fragment. -/
theorem hear_payloads_drop {nal : Bytes} {m : Nat} (hm : 0 < m) (hm' : m < (Plan.payloads b nal).length)
    (nals : List Bytes) : ((Plan.payloads b nal).drop m).foldl hear (.intact nals none) = .broken := by
  by_cases hl : nal.length ≤ b.whole
  · rw [Plan.payloads_whole hl, List.length_singleton] at hm'
    omega
  · cases nal with
    | nil => exact absurd (Nat.zero_le _) hl
    | cons header body =>
      rw [Plan.payloads_cut (Nat.not_le.1 hl)] at hm' ⊢
      generalize Plan.slices b.piece body = pieces at hm' ⊢
      rw [List.length_map, Plan.length_train] at hm'
      obtain ⟨k, rfl⟩ : ∃ k, m = k + 1 := ⟨m - 1, by omega⟩
      rw [← List.map_drop, Plan.drop_train, List.drop_eq_getElem_cons hm', Plan.train, List.map_cons, List.foldl_cons,
        hear_stray, foldl_hear_broken]

/-- **Who begins to listen within an access unit** either begins with a NAL unit and hears all NAL units from there on,
or hears nothing that could be put together. -/
theorem hear_drop (hp : 0 < b.piece) (hw : 0 < b.whole) : ∀ (nals : List Bytes) (m : Nat),
    (∀ nal ∈ nals, Nal.isCarriable nal = true) → m ≤ (nals.flatMap (Plan.payloads b)).length →
    (∃ missed heard, nals = missed ++ heard ∧ m = (missed.flatMap (Plan.payloads b)).length ∧
      ((nals.flatMap (Plan.payloads b)).drop m).foldl hear (.intact [] none) = .intact heard.reverse none) ∨
    ((nals.flatMap (Plan.payloads b)).drop m).foldl hear (.intact [] none) = .broken
  | nals, 0, h, _ => .inl ⟨[], nals, rfl, rfl, by rw [List.drop_zero, hear_unit hp hw nals [] h, List.append_nil]⟩
  | [], m + 1, _, hm => absurd hm (by simp)
  | nal :: rest, m + 1, h, hm => by
    rw [List.flatMap_cons, List.drop_append]
    by_cases hin : m + 1 < (Plan.payloads b nal).length
    · right
      rw [List.foldl_append, hear_payloads_drop (Nat.succ_pos m) hin, foldl_hear_broken]
    · rw [List.flatMap_cons, List.length_append] at hm
      rw [List.drop_eq_nil_of_le (Nat.not_lt.1 hin), List.nil_append]
      rcases hear_drop hp hw rest (m + 1 - (Plan.payloads b nal).length)
          (fun n hn => h n (List.mem_cons_of_mem nal hn)) (by omega) with ⟨missed, heard, hs, hc, he⟩ | he
      · refine .inl ⟨nal :: missed, heard, by rw [hs, List.cons_append], ?_, he⟩
        rw [List.flatMap_cons, List.length_append, ← hc]
        omega
      · exact .inr he

end FrameContent
end VideoTransport
