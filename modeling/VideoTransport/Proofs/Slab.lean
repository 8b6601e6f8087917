import Mathlib.Data.List.Nodup
/-!
# Slab — a store that gives each item a key

A slab hands out a key for every item it takes, and uses a key again once its item has been taken out.  What is relied
upon is what any slab promises (`Slab.IsLawful`); one that uses the key again that was freed last keeps these promises
(`Cells.slab_isLawful`).
-/
namespace VideoTransport

/-- A store of items by keys. -/
structure Slab (α σ : Type) where
  withCapacity : Nat → σ
  size : σ → Nat
  /-- The item under a key. -/
  get? : σ → Nat → Option α
  /-- All items with their keys. -/
  entries : σ → List (Nat × α)
  insert : σ → α → Nat × σ
  /-- Write over the item under a key. -/
  set : σ → Nat → α → σ
  /-- Take out the item under a key, if there is one. -/
  take? : σ → Nat → Option (α × σ)

/-- What a slab promises. -/
structure Slab.IsLawful {α σ : Type} (S : Slab α σ) : Prop where
  get?_withCapacity : ∀ n k, S.get? (S.withCapacity n) k = none
  get?_insert_key : ∀ s x, S.get? s (S.insert s x).1 = none
  get?_insert : ∀ s x k, S.get? (S.insert s x).2 k = if k = (S.insert s x).1 then some x else S.get? s k
  get?_set : ∀ {s k y}, S.get? s k = some y → ∀ x j, S.get? (S.set s k x) j = if j = k then some x else S.get? s j
  take?_of_get? : ∀ {s k x}, S.get? s k = some x →
    ∃ s', S.take? s k = some (x, s') ∧ ∀ j, S.get? s' j = if j = k then none else S.get? s j
  mem_entries : ∀ {s k x}, (k, x) ∈ S.entries s ↔ S.get? s k = some x
  nodup_entries : ∀ s, ((S.entries s).map Prod.fst).Nodup
  size_eq : ∀ s, S.size s = (S.entries s).length

/-! ## A slab of cells -/

/-- A list of the free cells among cells in a row. -/
structure Vacancies {α : Type} (cells : List (Option α)) (free : List Nat) : Prop where
  nodup : free.Nodup
  mem_free : ∀ k, k ∈ free ↔ cells[k]? = some none

namespace Vacancies

variable {α : Type} {cells : List (Option α)} {free : List Nat} {k : Nat}

theorem grow (h : Vacancies cells []) (x : α) : Vacancies (cells ++ [some x]) [] where
  nodup := .nil
  mem_free j := by
    have hj := h.mem_free j
    rw [List.getElem?_append]
    split
    · exact hj
    · rw [List.getElem?_singleton]
      split <;> simp

theorem reuse (h : Vacancies cells (k :: free)) (x : α) : Vacancies (cells.set k (some x)) free where
  nodup := (List.nodup_cons.1 h.nodup).2
  mem_free j := by
    have hj := h.mem_free j
    rw [List.getElem?_set]
    split
    · rename_i heq
      have hnot : j ∉ free := heq ▸ (List.nodup_cons.1 h.nodup).1
      split <;> simp [hnot]
    · rename_i hne
      rw [← hj, List.mem_cons]
      exact ⟨.inr, fun hmem => hmem.resolve_left fun heq => hne heq.symm⟩

theorem write (h : Vacancies cells free) {y : α} (hk : cells[k]? = some (some y)) (x : α) :
    Vacancies (cells.set k (some x)) free where
  nodup := h.nodup
  mem_free j := by
    have hj := h.mem_free j
    rw [List.getElem?_set]
    split
    · rename_i heq
      rw [← heq, hk] at hj
      rw [← heq, hj]
      split <;> simp
    · exact hj

theorem release (h : Vacancies cells free) {y : α} (hk : cells[k]? = some (some y)) :
    Vacancies (cells.set k none) (k :: free) where
  nodup := by
    refine List.nodup_cons.2 ⟨fun hmem => ?_, h.nodup⟩
    have hnone := (h.mem_free k).1 hmem
    rw [hk] at hnone
    cases hnone
  mem_free j := by
    have hj := h.mem_free j
    have hlt := (List.getElem?_eq_some_iff.1 hk).1
    rw [List.getElem?_set, if_pos hlt, List.mem_cons]
    split
    · rename_i heq
      exact ⟨fun _ => rfl, fun _ => .inl heq.symm⟩
    · rename_i hne
      rw [← hj]
      exact ⟨fun hmem => hmem.resolve_left fun heq => hne heq.symm, .inr⟩

end Vacancies

/-- Cells in a row, of which the free ones are known, the one that was freed last first. -/
structure Cells (α : Type) where
  cells : List (Option α) := []
  free : List Nat := []
  vacancies : Vacancies cells free := by exact ⟨.nil, by simp⟩

namespace Cells

variable {α : Type} {c : Cells α} {k : Nat} {x : α}

def get? (c : Cells α) (k : Nat) : Option α := c.cells[k]?.join

theorem getElem?_of_get? (h : c.get? k = some x) : c.cells[k]? = some (some x) := Option.join_eq_some_iff.1 h

def entries (c : Cells α) : List (Nat × α) :=
  (List.range c.cells.length).filterMap fun k => (c.get? k).map (Prod.mk k)

/-- Put an item into the cell that was freed last, or into a new one. -/
def insert (c : Cells α) (x : α) : Nat × Cells α :=
  match hfree : c.free with
  | [] => (c.cells.length, ⟨c.cells ++ [some x], [], (hfree ▸ c.vacancies).grow x⟩)
  | k :: rest => (k, ⟨c.cells.set k (some x), rest, (hfree ▸ c.vacancies).reuse x⟩)

def set (c : Cells α) (k : Nat) (x : α) : Cells α :=
  match hk : c.get? k with
  | none => c
  | some _ => ⟨c.cells.set k (some x), c.free, c.vacancies.write (getElem?_of_get? hk) x⟩

def take? (c : Cells α) (k : Nat) : Option (α × Cells α) :=
  match hk : c.get? k with
  | none => none
  | some x => some (x, ⟨c.cells.set k none, k :: c.free, c.vacancies.release (getElem?_of_get? hk)⟩)

def slab (α : Type) : Slab α (Cells α) where
  withCapacity _ := {}
  size c := c.entries.length
  get? := get?
  entries := entries
  insert := insert
  set := set
  take? := take?

theorem insert_cases (c : Cells α) (x : α) :
    (c.free = [] ∧ (c.insert x).1 = c.cells.length ∧ (c.insert x).2.cells = c.cells ++ [some x]) ∨
      ∃ k, k ∈ c.free ∧ (c.insert x).1 = k ∧ (c.insert x).2.cells = c.cells.set k (some x) := by
  unfold insert
  split
  · rename_i hfree
    exact .inl ⟨hfree, rfl, rfl⟩
  · rename_i k rest hfree
    exact .inr ⟨k, by simp [hfree], rfl, rfl⟩

theorem join_getElem?_set {cells : List (Option α)} (h : k < cells.length) (o : Option α) (j : Nat) :
    (cells.set k o)[j]?.join = if j = k then o else cells[j]?.join := by
  rw [List.getElem?_set]
  by_cases heq : j = k
  · simp [heq, h]
  · have hne : ¬k = j := fun hkj => heq hkj.symm
    simp [heq, hne]

/-- **A slab of cells** keeps what a slab promises. -/
theorem slab_isLawful (α : Type) : (slab α).IsLawful where
  get?_withCapacity n k := by simp [slab, get?]
  get?_insert_key c x := by
    show c.get? (c.insert x).1 = none
    rcases c.insert_cases x with ⟨-, hkey, -⟩ | ⟨k, hk, hkey, -⟩
    · simp [hkey, get?]
    · rw [hkey, get?, (c.vacancies.mem_free k).1 hk]
      rfl
  get?_insert c x j := by
    show (c.insert x).2.get? j = if j = (c.insert x).1 then some x else c.get? j
    rcases c.insert_cases x with ⟨-, hkey, hcells⟩ | ⟨k, hk, hkey, hcells⟩
    · rw [hkey, get?, hcells, get?, List.getElem?_append]
      split
      · rename_i hlt
        rw [if_neg (Nat.ne_of_lt hlt)]
      · rename_i hge
        rw [List.getElem?_singleton]
        by_cases heq : j = c.cells.length
        · simp [heq]
        · have hpos : ¬j - c.cells.length = 0 := by omega
          have hnone : c.cells[j]? = none := List.getElem?_eq_none (Nat.not_lt.1 hge)
          simp [heq, hpos, hnone]
    · have hlt := (List.getElem?_eq_some_iff.1 ((c.vacancies.mem_free k).1 hk)).1
      rw [hkey, get?, hcells, join_getElem?_set hlt]
      rfl
  get?_set {c k y} hk x j := by
    have hk' : c.get? k = some y := hk
    have hlt := (List.getElem?_eq_some_iff.1 (getElem?_of_get? hk')).1
    have hcells : (c.set k x).cells = c.cells.set k (some x) := by
      unfold set
      split
      · rename_i hnone
        rw [hk'] at hnone
        cases hnone
      · rfl
    show (c.set k x).get? j = _
    rw [get?, hcells, join_getElem?_set hlt]
    rfl
  take?_of_get? {c k x} hk := by
    have hk' : c.get? k = some x := hk
    have hlt := (List.getElem?_eq_some_iff.1 (getElem?_of_get? hk')).1
    have htake : ∃ c', c.take? k = some (x, c') ∧ c'.cells = c.cells.set k none := by
      unfold take?
      split
      · rename_i hnone
        rw [hk'] at hnone
        cases hnone
      · rename_i y hy
        rw [hk'] at hy
        obtain rfl := Option.some.inj hy
        exact ⟨_, rfl, rfl⟩
    obtain ⟨c', htaken, hcells⟩ := htake
    refine ⟨c', htaken, fun j => ?_⟩
    show c'.get? j = _
    rw [get?, hcells, join_getElem?_set hlt]
    rfl
  mem_entries {c k x} := by
    show (k, x) ∈ c.entries ↔ c.get? k = some x
    unfold entries
    rw [List.mem_filterMap]
    constructor
    · rintro ⟨j, -, hj⟩
      obtain ⟨y, hy, heq⟩ := Option.map_eq_some_iff.1 hj
      obtain ⟨rfl, rfl⟩ := Prod.mk.inj heq
      exact hy
    · intro hk
      have hlt := (List.getElem?_eq_some_iff.1 (getElem?_of_get? hk)).1
      exact ⟨k, List.mem_range.2 hlt, by rw [hk]; rfl⟩
  nodup_entries c := by
    show (c.entries.map Prod.fst).Nodup
    unfold entries
    rw [List.map_filterMap]
    refine List.Nodup.filterMap (fun i j b hi hj => ?_) List.nodup_range
    simp only [Option.map_map, Option.mem_def, Option.map_eq_some_iff, Function.comp_apply] at hi hj
    obtain ⟨-, -, hi⟩ := hi
    obtain ⟨-, -, hj⟩ := hj
    exact hi.trans hj.symm
  size_eq _ := rfl

end Cells
end VideoTransport
