import Mathlib.Data.List.Nodup
import Mathlib.Data.List.Perm.Basic
import Mathlib.Data.List.ReduceOption
import VideoTransport.Proofs.Wording
/-!
# Slots — a record is read from its fields in any order

A text may name a field in several ways, hold the fields in any order, leave out those that may be left out and add
members of its own (`Arranges`).  Every field is stored once and foreign members are passed over, so a record is read
as what storing its fields in declared order makes of it (`Schema.read_of_perm`, `Schema.Fits.read`).  Taking in an
object keeps its members, as long as their names are different and there are values for all that stands in it
(`settle_object_of_nodup`).  What keeps names and values from being read is taken for an error of grammar (`FailsAs`).
-/
namespace VideoTransport
namespace Json

/-! ## Arrangements -/

/-- A field as it may stand in a text. -/
structure Slot (α : Type) where
  names : List String
  value : α
  /-- Whether the field may be left out. -/
  isOptional : Bool := false

section Arrangements

variable {α : Type}

/-- Every field is written under one of its names, or left out if it may be. -/
inductive Chosen : List (Slot α) → List (Quote × α) → Prop
  | nil : Chosen [] []
  | written {slot : Slot α} {name : String} {slots : List (Slot α)} {ms : List (Quote × α)}
      (hname : name ∈ slot.names) (h : Chosen slots ms) : Chosen (slot :: slots) ((↑name, slot.value) :: ms)
  | leftOut {slot : Slot α} {slots : List (Slot α)} {ms : List (Quote × α)} (hoptional : slot.isOptional = true)
      (h : Chosen slots ms) : Chosen (slot :: slots) ms

/-- The fields in any order, with members among them that have other and different names. -/
structure Arranges (slots : List (Slot α)) (added members : List (Quote × α)) : Prop where
  chosen : ∃ chosen, Chosen slots chosen ∧ members.Perm (chosen ++ added)
  nodup : (added.map Prod.fst).Nodup
  foreign : ∀ m ∈ added, ∀ slot ∈ slots, ∀ name ∈ slot.names, m.1 ≠ ↑name

/-- Lists that are related item by item hold for every item one that it is related to. -/
theorem exists_of_forall₂ {β : Type} {R : α → β → Prop} {l : List α} {u : List β} (h : List.Forall₂ R l u) :
    ∀ b ∈ u, ∃ a ∈ l, R a b := by
  induction h with
  | nil => exact fun _ hb => absurd hb List.not_mem_nil
  | cons hhead _ ih =>
    intro b hb
    rcases List.mem_cons.1 hb with rfl | hb
    · exact ⟨_, List.mem_cons_self, hhead⟩
    · obtain ⟨a, ha, hab⟩ := ih b hb
      exact ⟨a, List.mem_cons_of_mem _ ha, hab⟩

variable {slots : List (Slot α)} {chosen added members : List (Quote × α)}

theorem Arranges.of_perm {members' : List (Quote × α)} (h : Arranges slots added members)
    (hperm : members'.Perm members) : Arranges slots added members' where
  chosen := by
    obtain ⟨chosen, hchosen, hmembers⟩ := h.chosen
    exact ⟨chosen, hchosen, hperm.trans hmembers⟩
  nodup := h.nodup
  foreign := h.foreign

theorem Chosen.exists_slot (h : Chosen slots chosen) :
    ∀ m ∈ chosen, ∃ slot ∈ slots, (∃ name ∈ slot.names, m.1 = ↑name) ∧ m.2 = slot.value := by
  induction h with
  | nil => exact fun _ hm => absurd hm List.not_mem_nil
  | written hname _ ih =>
    refine List.forall_mem_cons.2 ⟨⟨_, List.mem_cons_self, ⟨_, hname, rfl⟩, rfl⟩, fun m hm => ?_⟩
    obtain ⟨slot, hslot, hm⟩ := ih m hm
    exact ⟨slot, List.mem_cons_of_mem _ hslot, hm⟩
  | leftOut _ _ ih =>
    intro m hm
    obtain ⟨slot, hslot, hm⟩ := ih m hm
    exact ⟨slot, List.mem_cons_of_mem _ hslot, hm⟩

theorem Chosen.nodup (h : Chosen slots chosen) (hslots : (slots.flatMap (·.names)).Nodup) :
    (chosen.map Prod.fst).Nodup := by
  induction h with
  | nil => exact .nil
  | written hname h ih =>
    rw [List.flatMap_cons, List.nodup_append] at hslots
    refine List.nodup_cons.2 ⟨fun hmem => ?_, ih hslots.2.1⟩
    obtain ⟨m, hm, hm'⟩ := List.mem_map.1 hmem
    obtain ⟨slot, hslot, ⟨name', hname', he⟩, -⟩ := h.exists_slot m hm
    exact hslots.2.2 _ hname _ (List.mem_flatMap.2 ⟨slot, hslot, hname'⟩)
      (Quote.ofString_injective (hm'.symm.trans he))
  | leftOut _ _ ih =>
    rw [List.flatMap_cons, List.nodup_append] at hslots
    exact ih hslots.2.1

theorem Arranges.nodup_names (h : Arranges slots added members) (hslots : (slots.flatMap (·.names)).Nodup) :
    (members.map Prod.fst).Nodup := by
  obtain ⟨chosen, hchosen, hperm⟩ := h.chosen
  rw [(hperm.map Prod.fst).nodup_iff, List.map_append, List.nodup_append]
  refine ⟨hchosen.nodup hslots, h.nodup, fun name hname name' hname' he => ?_⟩
  subst he
  obtain ⟨m, hm, rfl⟩ := List.mem_map.1 hname
  obtain ⟨m', hm', he⟩ := List.mem_map.1 hname'
  obtain ⟨slot, hslot, ⟨name, hname, hm⟩, -⟩ := hchosen.exists_slot m hm
  exact h.foreign m' hm' slot hslot name hname (he.trans hm)

/-- Among what arranged members are read as, fields and added members can be told apart. -/
theorem Arranges.entries {IsReadAs : α → Tree → Prop} (h : Arranges slots added members)
    {entries : List (Phrase × Tree)} (hread : List.Forall₂ (MemberIsReadAs IsReadAs) members entries) :
    ∃ chosen stored passed, Chosen slots chosen ∧ List.Forall₂ (MemberIsReadAs IsReadAs) chosen stored ∧
      List.Forall₂ (MemberIsReadAs IsReadAs) added passed ∧ entries.Perm (stored ++ passed) := by
  obtain ⟨chosen, hchosen, hperm⟩ := h.chosen
  obtain ⟨ordered, hordered, hentries⟩ := List.perm_comp_forall₂ hperm.symm hread
  have hflip := hordered.flip
  refine ⟨chosen, ordered.take chosen.length, ordered.drop chosen.length, hchosen,
    (List.forall₂_take_append _ _ _ hflip).flip, (List.forall₂_drop_append _ _ _ hflip).flip, ?_⟩
  rw [List.take_append_drop]
  exact hentries.symm

end Arrangements

/-! ## Reading a record -/

theorem exists_of_bind_eq_ok {ε α β : Type} {x : Except ε α} {f : α → Except ε β} {b : β} (h : x >>= f = .ok b) :
    ∃ a, x = .ok a ∧ f a = .ok b := by
  cases x with
  | error e => cases h
  | ok a => exact ⟨a, rfl, h⟩

theorem liftStop_eq_ok_iff {α : Type} {x : Except Stop α} {a : α} : liftStop x = .ok a ↔ x = .ok a := by
  cases x with
  | error stop => exact iff_of_false nofun nofun
  | ok b => exact ⟨fun h => congrArg Except.ok (Except.ok.inj h), fun h => congrArg Except.ok (Except.ok.inj h)⟩

/-- A result whose failure, if it is one, is `e`. -/
def FailsAs {ε α : Type} (e : ε) (x : Except ε α) : Prop := ∀ e', x = .error e' → e' = e

namespace FailsAs

variable {ε α β : Type} {e : ε}

theorem ok (a : α) : FailsAs e (.ok a) := nofun

theorem bind {x : Except ε α} {f : α → Except ε β} (hx : FailsAs e x) (hf : ∀ a, x = .ok a → FailsAs e (f a)) :
    FailsAs e (x >>= f) := by
  cases x with
  | error e' => exact fun e'' h => hx e'' (congrArg Except.error (Except.error.inj h))
  | ok a => exact hf a rfl

theorem liftStop {x : Except Stop α} (hx : FailsAs .malformed x) : FailsAs .malformed (liftStop x) := by
  cases x with
  | error stop =>
    rintro _ ⟨⟩
    exact congrArg Stop.failure (hx stop rfl)
  | ok a => exact .ok a

end FailsAs

namespace Schema

variable {σ : Type} (s : Schema σ)

/-- A field, and what storing its value does to the record. -/
structure Filling (σ : Type) where
  field : Field σ
  fill : σ → σ

/-- A member that is stored in a field. -/
structure Stored extends Filling σ where
  entry : Phrase × Tree
  key : String
  text : entry.1.text = .ok key
  found : s.fields.find? (·.answersTo key) = some field
  store : ∀ r, field.store entry.2 r = .ok (fill r)

/-- A member without a field. -/
structure IsForeign (entry : Phrase × Tree) : Prop where
  text : ∃ key, entry.1.text = .ok key ∧ s.fields.find? (·.answersTo key) = none
  skip : entry.2.skip = .ok ()

/-- What is done with a member. -/
inductive Meets : Phrase × Tree → Option s.Stored → Prop
  | stored (x : s.Stored) : Meets x.entry (some x)
  | foreign {entry : Phrase × Tree} (h : s.IsForeign entry) : Meets entry none

variable {s}

theorem Stored.step (x : s.Stored) (rest : List (Phrase × Tree)) {seen : List String} (h : x.field.name ∉ seen)
    (r : σ) : s.readMembers (x.entry :: rest) seen r = s.readMembers rest (x.field.name :: seen) (x.fill r) := by
  rw [readMembers, x.text]
  simp [liftStop, Bind.bind, Except.bind, x.found, h, x.store]

theorem IsForeign.step {entry : Phrase × Tree} (h : s.IsForeign entry) (rest : List (Phrase × Tree))
    (seen : List String) (r : σ) : s.readMembers (entry :: rest) seen r = s.readMembers rest seen r := by
  obtain ⟨key, htext, hnone⟩ := h.text
  rw [readMembers, htext]
  simp [liftStop, Bind.bind, Except.bind, hnone, h.skip]

theorem readMembers_meets {entries : List (Phrase × Tree)} {acts : List (Option s.Stored)}
    (h : List.Forall₂ s.Meets entries acts) : ∀ (seen : List String) (r : σ),
    ((acts.reduceOption.map (·.field.name)).reverse ++ seen).Nodup →
    s.readMembers entries seen r = .ok ((acts.reduceOption.map (·.field.name)).reverse ++ seen,
      acts.reduceOption.foldl (fun r x => x.fill r) r) := by
  induction h with
  | nil => exact fun seen r _ => rfl
  | cons hmeets _ ih =>
    intro seen r hnodup
    cases hmeets with
    | stored x =>
      rw [List.reduceOption_cons_of_some, List.map_cons, List.reverse_cons, List.append_assoc,
        List.singleton_append] at hnodup ⊢
      have hnew : x.field.name ∉ seen := (List.nodup_cons.1 (List.nodup_append.1 hnodup).2.1).1
      rw [x.step _ hnew, ih _ (x.fill r) hnodup, List.foldl_cons]
    | foreign hforeign =>
      rw [List.reduceOption_cons_of_none] at hnodup ⊢
      rw [hforeign.step, ih seen r hnodup]

/-- **A record is read as what its members make of it, in any order**, when no field is met twice. -/
theorem readMembers_of_perm {entries passed : List (Phrase × Tree)} {stored : List s.Stored}
    (hperm : entries.Perm (stored.map (·.entry) ++ passed)) (hpassed : ∀ e ∈ passed, s.IsForeign e)
    (hnodup : (stored.map (·.field.name)).Nodup)
    (hcommute : ∀ x ∈ stored, ∀ y ∈ stored, ∀ r, y.fill (x.fill r) = x.fill (y.fill r)) (r : σ) :
    ∃ seen, seen.Perm (stored.map (·.field.name)) ∧
      s.readMembers entries [] r = .ok (seen, stored.foldl (fun r x => x.fill r) r) := by
  have hmeets : List.Forall₂ s.Meets (stored.map (·.entry) ++ passed)
      (stored.map some ++ passed.map fun _ => none) := by
    refine List.rel_append ?_ ?_
    · exact List.forall₂_map_left_iff.2 (List.forall₂_map_right_iff.2 (List.forall₂_same.2 fun x _ => .stored x))
    · exact List.forall₂_map_right_iff.2 (List.forall₂_same.2 fun e he => .foreign (hpassed e he))
  -- the members are met in the order of the text, so what is done with them comes in this order too
  obtain ⟨acts, hacts, hacts'⟩ := List.perm_comp_forall₂ hperm hmeets
  have hreduced : (stored.map some ++ passed.map fun _ => none).reduceOption = stored := by
    simp [List.reduceOption, List.filterMap_append, List.filterMap_map]
  have hstored : acts.reduceOption.Perm stored := hreduced ▸ hacts'.filterMap id
  have hnames : (acts.reduceOption.map (·.field.name)).reverse.Perm (stored.map (·.field.name)) :=
    (List.reverse_perm _).trans (hstored.map _)
  have hread := readMembers_meets hacts [] r (by
    rw [List.append_nil]
    exact hnames.nodup_iff.2 hnodup)
  rw [List.append_nil] at hread
  refine ⟨_, hnames, hread.trans ?_⟩
  rw [hstored.foldl_eq' (fun x hx y hy r => hcommute x (hstored.mem_iff.1 hx) y (hstored.mem_iff.1 hy) r) r]

theorem read_of_perm {entries passed : List (Phrase × Tree)} (stored : List s.Stored)
    (hperm : entries.Perm (stored.map (·.entry) ++ passed)) (hpassed : ∀ e ∈ passed, s.IsForeign e)
    (hnodup : (stored.map (·.field.name)).Nodup)
    (hcommute : ∀ x ∈ stored, ∀ y ∈ stored, ∀ r, y.fill (x.fill r) = x.fill (y.fill r))
    (hrequired : ∀ f ∈ s.fields, f.required = true → f.name ∈ stored.map (·.field.name)) (origin : Origin) :
    s.read origin (.object entries none) = .ok (stored.foldl (fun r x => x.fill r) s.initial) := by
  obtain ⟨seen, hseen, hread⟩ := readMembers_of_perm hperm hpassed hnodup hcommute s.initial
  have hmissing : s.missing? seen = none := by
    rw [missing?, Option.map_eq_none_iff, List.find?_eq_none]
    intro f hf hlacks
    simp only [Bool.and_eq_true, Bool.not_eq_true', List.contains_eq_mem, decide_eq_false_iff_not] at hlacks
    exact hlacks.2 (hseen.mem_iff.2 (hrequired f hf hlacks.1))
  rw [read, hread]
  simp only [Bind.bind, Except.bind, hmissing]

theorem find?_eq_none {key : String} (h : ∀ f ∈ s.fields, key ∉ f.name :: f.aliases) :
    s.fields.find? (·.answersTo key) = none := by
  refine List.find?_eq_none.2 fun f hf hanswers => h f hf ?_
  simp only [Field.answersTo, Bool.or_eq_true, decide_eq_true_eq, List.contains_eq_mem] at hanswers
  exact List.mem_cons.2 (hanswers.imp Eq.symm id)

/-- The field that a member is for. -/
def fieldFor (s : Schema σ) (entry : Phrase × Tree) : Option (Field σ) :=
  entry.1.text.toOption.bind fun key => s.fields.find? (·.answersTo key)

/-- Reading the member fails, if it does, as a text that breaks the grammar. -/
structure FailsMalformed (s : Schema σ) (entry : Phrase × Tree) : Prop where
  text : FailsAs .malformed entry.1.text
  skip : s.fieldFor entry = none → FailsAs .malformed entry.2.skip
  store : ∀ f, s.fieldFor entry = some f → ∀ r, FailsAs .malformed (f.store entry.2 r)

theorem FailsMalformed.of_field {entry : Phrase × Tree} {f : Field σ} (hfor : s.fieldFor entry = some f)
    (htext : FailsAs .malformed entry.1.text) (hstore : ∀ r, FailsAs .malformed (f.store entry.2 r)) :
    s.FailsMalformed entry where
  text := htext
  skip hnone := by
    rw [hfor] at hnone
    cases hnone
  store f' hf' := by
    obtain rfl := Option.some.inj (hfor.symm.trans hf')
    exact hstore

theorem FailsMalformed.of_foreign {entry : Phrase × Tree} (hfor : s.fieldFor entry = none)
    (htext : FailsAs .malformed entry.1.text) (hskip : entry.2.skip = .ok ()) : s.FailsMalformed entry where
  text := htext
  skip _ := by
    rw [hskip]
    exact .ok _
  store f hf := by
    rw [hfor] at hf
    cases hf

/-- Members of which no two are for one field fail as each of them does. -/
theorem failsAs_readMembers : ∀ {entries : List (Phrase × Tree)} {seen : List String} {r : σ},
    (∀ e ∈ entries, s.FailsMalformed e) → ((entries.filterMap s.fieldFor).map (·.name) ++ seen).Nodup →
    FailsAs .malformed (s.readMembers entries seen r)
  | [], seen, r, _, _ => .ok _
  | (p, t) :: entries, seen, r, h, hnodup => by
    obtain ⟨hmember, h⟩ := List.forall_mem_cons.1 h
    rw [readMembers]
    refine hmember.text.liftStop.bind fun key hkey => ?_
    have hfor : s.fieldFor (p, t) = s.fields.find? (·.answersTo key) := by
      rw [fieldFor, liftStop_eq_ok_iff.1 hkey]
      rfl
    cases hfind : s.fields.find? (·.answersTo key) with
    | none =>
      rw [hfind] at hfor
      rw [List.filterMap_cons_none hfor] at hnodup
      exact (hmember.skip hfor).liftStop.bind fun _ _ => failsAs_readMembers h hnodup
    | some f =>
      rw [hfind] at hfor
      rw [List.filterMap_cons_some hfor, List.map_cons, List.cons_append] at hnodup
      have hnew : f.name ∉ seen := fun hmem => (List.nodup_cons.1 hnodup).1 (List.mem_append_right _ hmem)
      simp only [List.contains_eq_mem, hnew, decide_false, Bool.false_eq_true, if_false]
      exact (hmember.store f hfor r).bind fun r' _ =>
        failsAs_readMembers h (List.perm_middle.nodup_iff.2 hnodup)

/-- When the members of an object are read, every member has a text for its name, and is stored if that is a field. -/
theorem store_of_readMembers : ∀ {entries : List (Phrase × Tree)} {seen : List String} {r : σ}
    {out : List String × σ}, s.readMembers entries seen r = .ok out → ∀ e ∈ entries, ∃ key, e.1.text = .ok key ∧
      ∀ f, s.fields.find? (·.answersTo key) = some f → ∃ r r', f.store e.2 r = .ok r'
  | (p, t) :: entries, seen, r, out, h, e, he => by
    rw [readMembers] at h
    obtain ⟨key, hkey, h⟩ := exists_of_bind_eq_ok h
    rw [liftStop_eq_ok_iff] at hkey
    cases hfind : s.fields.find? (·.answersTo key) with
    | none =>
      simp only [hfind] at h
      obtain ⟨-, -, h⟩ := exists_of_bind_eq_ok h
      rcases List.mem_cons.1 he with rfl | he
      · exact ⟨key, hkey, fun f hf => by rw [hfind] at hf; cases hf⟩
      · exact store_of_readMembers h e he
    | some f =>
      simp only [hfind] at h
      split at h
      · cases h
      · obtain ⟨r', hstore, h⟩ := exists_of_bind_eq_ok h
        rcases List.mem_cons.1 he with rfl | he
        · refine ⟨key, hkey, fun f' hf' => ?_⟩
          obtain rfl := Option.some.inj (hfind.symm.trans hf')
          exact ⟨r, r', hstore⟩
        · exact store_of_readMembers h e he

/-! ## Records whose fields are known -/

/-- What a field stores is there to begin with. -/
structure Filling.IsIdle (s : Schema σ) (x : Filling σ) : Prop where
  optional : x.field.required = false
  unchanged : x.fill s.initial = s.initial

theorem foldl_idle : ∀ {xs : List (Filling σ)}, (∀ x ∈ xs, x.IsIdle s) →
    xs.foldl (fun r x => x.fill r) s.initial = s.initial
  | [], _ => rfl
  | x :: xs, h => by
    rw [List.foldl_cons, (h x List.mem_cons_self).unchanged]
    exact foldl_idle fun y hy => h y (List.mem_cons_of_mem x hy)

section Fits

variable {α : Type}

/-- A field takes the value of a slot, whatever tree the value is read as. -/
structure Takes (s : Schema σ) (IsReadAs : α → Tree → Prop) (slot : Slot α) (x : Filling σ) : Prop where
  names : slot.names = x.field.name :: x.field.aliases
  stores : ∀ t, IsReadAs slot.value t → ∀ r, x.field.store t r = .ok (x.fill r)
  idle : slot.isOptional = true → x.IsIdle s

/-- The slots hold the fields of the record `r`. -/
structure Fits (s : Schema σ) (IsReadAs : α → Tree → Prop) (slots : List (Slot α)) (r : σ) where
  fills : List (Filling σ)
  takes : List.Forall₂ (s.Takes IsReadAs) slots fills
  fields : fills.map (·.field) = s.fields
  nodup : (s.fields.map (·.name)).Nodup
  /-- No other field answers to a name of a field. -/
  unambiguous : ∀ f ∈ s.fields, ∀ key ∈ f.name :: f.aliases, s.fields.find? (·.answersTo key) = some f
  commute : ∀ x ∈ fills, ∀ y ∈ fills, ∀ r, y.fill (x.fill r) = x.fill (y.fill r)
  makes : fills.foldl (fun r x => x.fill r) s.initial = r

variable {IsReadAs : α → Tree → Prop} {slots : List (Slot α)} {chosen : List (Quote × α)} {r : σ}

/-- Fields that are chosen are stored, and the others have nothing to store. -/
theorem stored_of_chosen {fills : List (Filling σ)} (htakes : List.Forall₂ (s.Takes IsReadAs) slots fills)
    (hfound : ∀ x ∈ fills, ∀ key ∈ x.field.name :: x.field.aliases,
      s.fields.find? (·.answersTo key) = some x.field)
    (hchosen : Chosen slots chosen) : ∀ {entries : List (Phrase × Tree)},
    List.Forall₂ (MemberIsReadAs IsReadAs) chosen entries →
    ∃ (stored : List s.Stored) (omitted : List (Filling σ)), stored.map (·.entry) = entries ∧
      fills.Perm (omitted ++ stored.map (·.toFilling)) ∧ ∀ x ∈ omitted, x.IsIdle s := by
  induction hchosen generalizing fills with
  | nil =>
    rintro entries ⟨⟩
    cases htakes
    exact ⟨[], [], rfl, .nil, fun _ h => absurd h List.not_mem_nil⟩
  | @written slot name slots ms hname _ ih =>
    rintro entries hread
    obtain _ | ⟨hentry, hread⟩ := hread
    obtain _ | ⟨htake, htakes⟩ := htakes
    rename_i entry entries x fills
    obtain ⟨stored, omitted, hentries, hperm, homitted⟩ := ih htakes (List.forall_mem_cons.1 hfound).2 hread
    let first : s.Stored := ⟨x, entry, name, hentry.name.text,
      hfound x List.mem_cons_self name (htake.names ▸ hname), htake.stores _ hentry.value⟩
    refine ⟨first :: stored, omitted, congrArg (entry :: ·) hentries, ?_, homitted⟩
    exact (hperm.cons x).trans List.perm_middle.symm
  | leftOut hoptional _ ih =>
    rintro entries hread
    obtain _ | ⟨htake, htakes⟩ := htakes
    rename_i x fills
    obtain ⟨stored, omitted, hentries, hperm, homitted⟩ := ih htakes (List.forall_mem_cons.1 hfound).2 hread
    exact ⟨stored, x :: omitted, hentries, hperm.cons x, List.forall_mem_cons.2 ⟨htake.idle hoptional, homitted⟩⟩

namespace Fits

variable (hfits : s.Fits IsReadAs slots r)

include hfits

theorem isForeign {m : Quote × α} (hm : ∀ slot ∈ slots, ∀ name ∈ slot.names, m.1 ≠ ↑name) (htext : m.1.IsText)
    {e : Phrase × Tree} (hread : MemberIsReadAs IsReadAs m e) (hskip : e.2.skip = .ok ()) : s.IsForeign e := by
  obtain ⟨key, hkey⟩ := htext
  refine ⟨⟨key, hread.name.text_eq_ok_iff.2 hkey, find?_eq_none fun f hf hmem => ?_⟩, hskip⟩
  rw [← hfits.fields] at hf
  obtain ⟨x, hx, rfl⟩ := List.mem_map.1 hf
  obtain ⟨slot, hslot, htake⟩ := exists_of_forall₂ hfits.takes x hx
  exact hm slot hslot key (htake.names ▸ hmem) hkey

variable {stored : List s.Stored} {omitted : List (Filling σ)}

theorem nodup_stored (hfills : hfits.fills.Perm (omitted ++ stored.map (·.toFilling))) :
    (stored.map (·.field.name)).Nodup := by
  have hnames : (s.fields.map (·.name)).Perm (omitted.map (·.field.name) ++ stored.map (·.field.name)) := by
    have hperm := hfills.map fun x => x.field.name
    rw [← hfits.fields, List.map_map]
    rwa [List.map_append, List.map_map] at hperm
  exact (List.nodup_append.1 (hnames.nodup_iff.1 hfits.nodup)).2.1

/-- Required fields are not among those that are left out. -/
theorem required_stored (hfills : hfits.fills.Perm (omitted ++ stored.map (·.toFilling)))
    (homitted : ∀ x ∈ omitted, x.IsIdle s) :
    ∀ f ∈ s.fields, f.required = true → f.name ∈ stored.map (·.field.name) := by
  intro f hf hrequired
  rw [← hfits.fields] at hf
  obtain ⟨x, hx, rfl⟩ := List.mem_map.1 hf
  rcases List.mem_append.1 (hfills.mem_iff.1 hx) with hx | hx
  · rw [(homitted x hx).optional] at hrequired
    cases hrequired
  · obtain ⟨y, hy, rfl⟩ := List.mem_map.1 hx
    exact List.mem_map.2 ⟨y, hy, rfl⟩

/-- **A record is read from its fields**, however they are named and arranged and whatever foreign members there are,
as long as these have names. -/
theorem read {added members : List (Quote × α)} (harranges : Arranges slots added members)
    (hnames : ∀ m ∈ added, m.1.IsText) (hskip : ∀ m ∈ added, ∀ t, IsReadAs m.2 t → t.skip = .ok ())
    {entries : List (Phrase × Tree)} (hread : List.Forall₂ (MemberIsReadAs IsReadAs) members entries)
    (origin : Origin) : s.read origin (.object entries none) = .ok r := by
  obtain ⟨chosen, entries', passed, hchosen, hstored, hpassed, hperm⟩ := harranges.entries hread
  obtain ⟨stored, omitted, rfl, hfills, homitted⟩ := stored_of_chosen hfits.takes
    (fun x hx => hfits.unambiguous x.field (hfits.fields ▸ List.mem_map_of_mem hx)) hchosen hstored
  have hforeign : ∀ e ∈ passed, s.IsForeign e := by
    intro e he
    obtain ⟨m, hm, hme⟩ := exists_of_forall₂ hpassed e he
    exact hfits.isForeign (harranges.foreign m hm) (hnames m hm) hme (hskip m hm e.2 hme.value)
  have hmem {x : s.Stored} (hx : x ∈ stored) : x.toFilling ∈ hfits.fills :=
    hfills.mem_iff.2 (List.mem_append_right omitted (List.mem_map_of_mem hx))
  have hcommute : ∀ x ∈ stored, ∀ y ∈ stored, ∀ r, y.fill (x.fill r) = x.fill (y.fill r) :=
    fun x hx y hy => hfits.commute _ (hmem hx) _ (hmem hy)
  have hmakes := hfills.foldl_eq' (f := fun r x => x.fill r) (fun x hx y hy => hfits.commute x hx y hy) s.initial
  -- what is left out comes first, where it makes no difference
  rw [hfits.makes, List.foldl_append, foldl_idle homitted, List.foldl_map] at hmakes
  rw [read_of_perm stored hperm hforeign (hfits.nodup_stored hfills) hcommute
    (hfits.required_stored hfills homitted), hmakes]

end Fits

end Fits

end Schema

/-! ## Taking in an object -/

theorem insertMember_perm {key : String} (p : Phrase) (t : Tree) : ∀ {sorted : List (String × Phrase × Tree)},
    key ∉ sorted.map Prod.fst → (insertMember key p t sorted).Perm ((key, p, t) :: sorted)
  | [], _ => .refl _
  | (k, m) :: sorted, h => by
    rw [List.map_cons, List.mem_cons, not_or] at h
    rw [insertMember]
    split
    · exact .refl _
    · rw [if_neg h.1]
      exact ((insertMember_perm p t h.2).cons (k, m)).trans (.swap _ _ _)

/-- A scalar is taken in only when there is a value for it: a number may be too large, a string may be no text. -/
def Scalar.IsHeld : Scalar → Prop
  | .number l => ∃ n, l.value = .ok n
  | .string q => q.IsText
  | _ => True

theorem Scalar.IsReadAs.settle {x : Scalar} {t : Tree} (h : x.IsReadAs t) (hheld : x.IsHeld) (depth : Nat) :
    t.settle depth = .ok t := by
  cases h with
  | null => rw [Tree.settle]
  | bool b => rw [Tree.settle]
  | number l =>
    obtain ⟨n, hn⟩ := hheld
    rw [Tree.settle, hn]
    rfl
  | string h =>
    obtain ⟨s, hs⟩ := hheld
    rw [Tree.settle, h.text_eq_ok_iff.2 hs]
    rfl

theorem Scalar.IsReadAs.isHeld {x : Scalar} {t t' : Tree} (h : x.IsReadAs t) {depth : Nat}
    (hsettle : t.settle depth = .ok t') : x.IsHeld := by
  cases h with
  | null => trivial
  | bool b => trivial
  | number l =>
    rw [Tree.settle] at hsettle
    obtain ⟨n, hn, -⟩ := exists_of_bind_eq_ok hsettle
    exact ⟨n, hn⟩
  | string h =>
    rw [Tree.settle] at hsettle
    obtain ⟨s, hs, -⟩ := exists_of_bind_eq_ok hsettle
    exact ⟨s, h.text_eq_ok_iff.1 hs⟩

/-- Scalars with different names are taken in as they are, in another order. -/
theorem settleMembers_of_nodup {members : List (Quote × Scalar)} {entries : List (Phrase × Tree)}
    (hread : List.Forall₂ (MemberIsReadAs Scalar.IsReadAs) members entries)
    (hheld : ∀ m ∈ members, m.1.IsText ∧ m.2.IsHeld) (depth : Nat) : ∀ (sorted : List (String × Phrase × Tree)),
    (members.map Prod.fst ++ sorted.map fun x => Quote.ofString x.1).Nodup →
    ∃ out, settleMembers depth entries sorted = .ok out ∧ (out.map Prod.snd).Perm (entries ++ sorted.map Prod.snd) := by
  induction hread with
  | nil => exact fun sorted _ => ⟨sorted, by rw [settleMembers], .refl _⟩
  | @cons m e members entries hentry _ ih =>
    intro sorted hnodup
    obtain ⟨⟨⟨key, hkey⟩, hvalue⟩, hheld⟩ := List.forall_mem_cons.1 hheld
    rw [List.map_cons, List.cons_append, List.nodup_cons, List.mem_append, not_or, hkey] at hnodup
    obtain ⟨⟨hfresh, hnew⟩, hnodup⟩ := hnodup
    -- the name is new to what is there already, so nothing is replaced
    have hkeys : key ∉ sorted.map Prod.fst := by
      intro h
      obtain ⟨x, hx, rfl⟩ := List.mem_map.1 h
      exact hnew (List.mem_map_of_mem hx)
    have hinsert := insertMember_perm e.1 e.2 hkeys
    have hnames := (hinsert.map fun x => Quote.ofString x.1).append_left (members.map Prod.fst)
    have hnodup' :
        (members.map Prod.fst ++ (insertMember key e.1 e.2 sorted).map fun x => Quote.ofString x.1).Nodup := by
      rw [hnames.nodup_iff, List.map_cons, List.perm_middle.nodup_iff, List.nodup_cons, List.mem_append, not_or]
      exact ⟨⟨hfresh, hnew⟩, hnodup⟩
    obtain ⟨out, hout, hperm⟩ := ih hheld _ hnodup'
    refine ⟨out, ?_, hperm.trans ?_⟩
    · obtain ⟨p, t⟩ := e
      rw [settleMembers, hentry.name.text_eq_ok_iff.2 hkey, hentry.value.settle hvalue]
      exact hout
    · exact ((hinsert.map Prod.snd).append_left entries).trans List.perm_middle

theorem settle_of_settleMembers {depth : Nat} : ∀ {entries : List (Phrase × Tree)}
    {sorted out : List (String × Phrase × Tree)}, settleMembers depth entries sorted = .ok out →
    ∀ e ∈ entries, (∃ key, e.1.text = .ok key) ∧ ∃ t, e.2.settle depth = .ok t
  | (p, t) :: entries, sorted, out, h, e, he => by
    rw [settleMembers] at h
    obtain ⟨key, hkey, h⟩ := exists_of_bind_eq_ok h
    obtain ⟨t', hsettle, h⟩ := exists_of_bind_eq_ok h
    rcases List.mem_cons.1 he with rfl | he
    · exact ⟨⟨key, hkey⟩, t', hsettle⟩
    · exact settle_of_settleMembers h e he

variable {members : List (Quote × Scalar)} {entries : List (Phrase × Tree)} {depth : Nat}

/-- **An object of scalars with different names keeps its members** when it is taken in. -/
theorem settle_object_of_nodup (hread : List.Forall₂ (MemberIsReadAs Scalar.IsReadAs) members entries)
    (hheld : ∀ m ∈ members, m.1.IsText ∧ m.2.IsHeld) (hnodup : (members.map Prod.fst).Nodup) (hdepth : 1 < depth) :
    ∃ entries', entries'.Perm entries ∧ (Tree.object entries none).settle depth = .ok (.object entries' none) := by
  obtain ⟨out, hout, hperm⟩ := settleMembers_of_nodup hread hheld (depth - 1) []
    (by rwa [List.map_nil, List.append_nil])
  rw [List.map_nil, List.append_nil] at hperm
  refine ⟨out.map Prod.snd, hperm, ?_⟩
  rw [Tree.settle, deepen, if_neg (Nat.not_le.2 hdepth)]
  simp only [Bind.bind, Except.bind, hout]
  rfl

theorem isHeld_of_settle_object (hread : List.Forall₂ (MemberIsReadAs Scalar.IsReadAs) members entries) {t : Tree}
    (h : (Tree.object entries none).settle depth = .ok t) : ∀ m ∈ members, m.1.IsText ∧ m.2.IsHeld := by
  intro m hm
  obtain ⟨e, he, hme⟩ := exists_of_forall₂ hread.flip m hm
  rw [Tree.settle] at h
  obtain ⟨depth', -, h⟩ := exists_of_bind_eq_ok h
  obtain ⟨sorted, hsettle, -⟩ := exists_of_bind_eq_ok h
  obtain ⟨⟨key, hkey⟩, t', ht'⟩ := settle_of_settleMembers hsettle e he
  exact ⟨⟨key, hme.name.text_eq_ok_iff.1 hkey⟩, hme.value.isHeld ht'⟩

/-! ## Failing to take it in -/

theorem Phrase.Says.failsAs_text {p : Phrase} {q : Quote} (h : p.Says q) : FailsAs .malformed p.text := by
  intro stop hstop
  by_cases hq : q.IsText
  · obtain ⟨s, hs⟩ := hq
    rw [h.text_eq_ok_iff.2 hs] at hstop
    cases hstop
  · rw [h.text_of_not_isText hq] at hstop
    exact (Except.error.inj hstop).symm

theorem Literal.failsAs_value (l : Literal) : FailsAs .malformed l.value := by
  intro stop hstop
  simp only [value] at hstop
  split at hstop
  · cases hstop
  · split at hstop
    · cases hstop
    · exact (Except.error.inj hstop).symm

theorem Scalar.IsReadAs.failsAs_settle {x : Scalar} {t : Tree} (h : x.IsReadAs t) (depth : Nat) :
    FailsAs .malformed (t.settle depth) := by
  cases h with
  | null =>
    rw [Tree.settle]
    exact .ok _
  | bool b =>
    rw [Tree.settle]
    exact .ok _
  | number l =>
    rw [Tree.settle]
    exact l.failsAs_value.bind fun _ _ => .ok _
  | string h =>
    rw [Tree.settle]
    exact h.failsAs_text.bind fun _ _ => .ok _

theorem failsAs_settle_object (hread : List.Forall₂ (MemberIsReadAs Scalar.IsReadAs) members entries) :
    FailsAs .malformed ((Tree.object entries none).settle depth) := by
  have hmembers : ∀ depth sorted, FailsAs .malformed (settleMembers depth entries sorted) := by
    intro depth
    induction hread with
    | nil =>
      intro sorted
      rw [settleMembers]
      exact .ok _
    | @cons m e _ _ hentry _ ih =>
      obtain ⟨p, t⟩ := e
      intro sorted
      rw [settleMembers]
      exact hentry.name.failsAs_text.bind fun _ _ => (hentry.value.failsAs_settle depth).bind fun _ _ => ih _
  rw [Tree.settle]
  refine .bind ?_ fun depth' _ => (hmembers depth' []).bind fun _ _ => .ok _
  unfold deepen
  split
  · rintro _ ⟨⟩
    rfl
  · exact .ok _

end Json
end VideoTransport
