import VideoTransport.Proofs.Issue
/-!
# Place — where a packet stands in a stream

The access units of a stream take up positions one after another, a position for each packet.  A place tells for a
position the unit and the draft in it.  From one place to the next the unit stays the same, or the next one begins
(`Place.next_cases`).
-/
namespace VideoTransport

theorem Plan.marker_markLast : ∀ {payloads : List Bytes} {j : Nat} {d : Draft}, (markLast payloads)[j]? = some d →
    (d.marker = true ↔ j + 1 = payloads.length)
  | payload :: rest, 0, d, h => by
    rw [markLast_cons] at h
    obtain rfl := Option.some.inj h
    cases rest <;> simp
  | payload :: rest, j + 1, d, h => by
    rw [markLast_cons, List.getElem?_cons_succ] at h
    rw [marker_markLast h, List.length_cons, Nat.add_right_cancel_iff]

namespace Packetizer

/-! ## Positions of units -/

/-- The position of the first packet of unit number `w`. -/
def position (p : Packetizer) (units : List AccessUnit) (w : Nat) : Nat := ((units.take w).flatMap p.plan).length

def span (p : Packetizer) (units : List AccessUnit) : Nat := (units.flatMap p.plan).length

variable {p : Packetizer} {units : List AccessUnit}

@[simp] theorem length_plan (p : Packetizer) (u : AccessUnit) : (p.plan u).length = (p.drafts u).length :=
  List.length_map _

@[simp] theorem position_zero : p.position units 0 = 0 := rfl

theorem position_succ {w : Nat} {u : AccessUnit} (h : units[w]? = some u) :
    p.position units (w + 1) = p.position units w + (p.drafts u).length := by
  simp [position, List.take_add_one, h, -List.length_flatMap]

theorem position_of_length_le {w : Nat} (h : units.length ≤ w) : p.position units w = p.span units := by
  rw [position, span, List.take_of_length_le h]

theorem position_mono {v w : Nat} (h : v ≤ w) : p.position units v ≤ p.position units w := by
  obtain ⟨n, rfl⟩ := Nat.exists_eq_add_of_le h
  induction n with
  | zero => exact Nat.le_refl _
  | succ n ih =>
    rw [← Nat.add_assoc]
    cases hu : units[v + n]? with
    | none =>
      have hl := List.getElem?_eq_none_iff.1 hu
      rw [position_of_length_le (Nat.le_succ_of_le hl), ← position_of_length_le hl]
      exact ih (Nat.le_add_right v n)
    | some u =>
      rw [position_succ hu]
      exact Nat.le_trans (ih (Nat.le_add_right v n)) (Nat.le_add_right _ _)

theorem position_le_span (w : Nat) : p.position units w ≤ p.span units := by
  rcases Nat.le_total units.length w with h | h
  · exact Nat.le_of_eq (position_of_length_le h)
  · rw [← position_of_length_le (Nat.le_refl units.length)]
    exact position_mono h

/-! ## Places -/

/-- What stands at position `i` of a stream. -/
structure Place (p : Packetizer) (units : List AccessUnit) (i : Nat) where
  number : Nat
  unit : AccessUnit
  /-- The number of the packet within its unit. -/
  index : Nat
  draft : Draft
  unit_at : units[number]? = some unit
  draft_at : (p.drafts unit)[index]? = some draft
  position_eq : i = p.position units number + index

namespace Place

variable {i k : Nat}

theorem index_lt (x : Place p units i) : x.index < (p.drafts x.unit).length :=
  (List.getElem?_eq_some_iff.1 x.draft_at).1

theorem number_lt (x : Place p units i) : x.number < units.length := (List.getElem?_eq_some_iff.1 x.unit_at).1

theorem unit_mem (x : Place p units i) : x.unit ∈ units := List.mem_of_getElem? x.unit_at

theorem position_le (x : Place p units i) : p.position units x.number ≤ i := by
  have := x.position_eq
  omega

theorem lt_position (x : Place p units i) : i < p.position units (x.number + 1) := by
  have := x.position_eq
  have := x.index_lt
  rw [position_succ x.unit_at]
  omega

theorem lt_span (x : Place p units i) : i < p.span units := Nat.lt_of_lt_of_le x.lt_position (position_le_span _)

/-- **Every position within the span is a place.** -/
theorem exist {i : Nat} (h : i < p.span units) : Nonempty (Place p units i) := by
  -- The unit is the last one that begins at or before the position.
  have hw : ∃ w, i < p.position units (w + 1) ∧ p.position units w ≤ i := by
    rw [← position_of_length_le (Nat.le_refl units.length)] at h
    generalize units.length = n at h
    induction n with
    | zero => exact absurd h (Nat.not_lt_zero i)
    | succ n ih =>
      by_cases hi : i < p.position units n
      · exact ih hi
      · exact ⟨n, h, Nat.not_lt.1 hi⟩
  obtain ⟨w, hlt, hle⟩ := hw
  cases hu : units[w]? with
  | none =>
    have hl := List.getElem?_eq_none_iff.1 hu
    rw [position_of_length_le hl] at hle
    omega
  | some u =>
    rw [position_succ hu] at hlt
    have hj : i - p.position units w < (p.drafts u).length := by omega
    exact ⟨⟨w, u, i - p.position units w, (p.drafts u)[i - p.position units w], hu, List.getElem?_eq_getElem hj,
      by omega⟩⟩

theorem number_le (x : Place p units i) (y : Place p units k) (h : i ≤ k) : x.number ≤ y.number := by
  by_cases hlt : y.number < x.number
  · have hpos : p.position units (y.number + 1) ≤ p.position units x.number := position_mono hlt
    have := x.position_le
    have := y.lt_position
    omega
  · exact Nat.not_lt.1 hlt

theorem index_eq_zero (x : Place p units i) {w : Nat} (h : i = p.position units w) : x.index = 0 := by
  have hle : w ≤ x.number := by
    rcases Nat.lt_or_ge x.number w with hlt | hge
    · have hpos : p.position units (x.number + 1) ≤ p.position units w := position_mono hlt
      have := x.lt_position
      omega
    · exact hge
  have hpos : p.position units w ≤ p.position units x.number := position_mono hle
  have := x.position_eq
  omega

theorem unit_eq (x : Place p units i) (y : Place p units k) (h : x.number = y.number) : x.unit = y.unit := by
  have hx := x.unit_at
  rw [h, y.unit_at] at hx
  exact (Option.some.inj hx).symm

theorem marker_iff (x : Place p units i) : x.draft.marker = true ↔ i + 1 = p.position units (x.number + 1) := by
  have hm := Plan.marker_markLast x.draft_at
  have hl : (p.drafts x.unit).length = _ := Plan.length_markLast _
  have := x.position_eq
  rw [hm, ← hl, position_succ x.unit_at]
  omega

theorem marker_eq_false_iff (x : Place p units i) :
    x.draft.marker = false ↔ i + 1 < p.position units (x.number + 1) := by
  have hm := x.marker_iff
  have := x.lt_position
  cases hd : x.draft.marker
  · simp only [hd, Bool.false_eq_true, false_iff] at hm
    simp only [true_iff]
    omega
  · simp only [hd, true_iff] at hm
    simp only [Bool.true_eq_false, false_iff]
    omega

/-- A later packet belongs to the same unit, which then has not ended, or to a later one. -/
theorem later_cases (x : Place p units i) (y : Place p units k) (h : i < k) :
    x.number < y.number ∨ x.number = y.number ∧ x.draft.marker = false := by
  rcases Nat.lt_or_eq_of_le (x.number_le y (Nat.le_of_lt h)) with hn | hn
  · exact .inl hn
  · have hlt := y.lt_position
    rw [← hn] at hlt
    exact .inr ⟨hn, x.marker_eq_false_iff.2 (by omega)⟩

/-- **The next packet** belongs to the same unit, or to another one if it is the first packet there. -/
theorem next_cases (x : Place p units i) (y : Place p units (i + 1)) :
    x.number = y.number ∧ y.index = x.index + 1 ∧ x.draft.marker = false ∨
      x.number < y.number ∧ y.index = 0 ∧ x.draft.marker = true := by
  have hx := x.position_eq
  have hy := y.position_eq
  rcases x.later_cases y (Nat.lt_succ_self i) with hn | ⟨hn, hm⟩
  · have hpos : p.position units (x.number + 1) ≤ p.position units y.number := position_mono hn
    have := x.lt_position
    exact .inr ⟨hn, by omega, x.marker_iff.2 (by omega)⟩
  · rw [← hn] at hy
    exact .inl ⟨hn, by omega, hm⟩

theorem plan_at (x : Place p units i) : (units.flatMap p.plan)[i]? = some (x.unit.timestamp, x.draft) := by
  have hsplit : units = units.take x.number ++ x.unit :: units.drop (x.number + 1) := by
    obtain ⟨hlt, hget⟩ := List.getElem?_eq_some_iff.1 x.unit_at
    rw [← hget, ← List.drop_eq_getElem_cons hlt, List.take_append_drop]
  have hi : i - p.position units x.number = x.index := by
    have := x.position_eq
    omega
  conv => lhs; rw [hsplit]
  rw [List.flatMap_append, List.flatMap_cons, List.getElem?_append_right x.position_le, ← position, hi,
    List.getElem?_append_left (by rw [length_plan]; exact x.index_lt), plan, List.getElem?_map, x.draft_at]
  rfl

end Place
end Packetizer
end VideoTransport
