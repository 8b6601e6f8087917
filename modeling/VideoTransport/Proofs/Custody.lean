import VideoTransport.Proofs.Lending
/-!
# Custody — what has become of a loan

A loan is what it was when it was entered, with all that has been done with it since (`Ledger.loan_after`), and there is
no loan but has been entered so (`Ledger.entered_of_loan`).  So a live buffer reads as what has been written into it
since it was acquired, whoever had it before.
-/
namespace VideoTransport

open AnnexB (opensWithStartCode)

namespace Buffer

theorem append_nil (b : Buffer) : b.append [] = b := by
  rcases b with ⟨_ | octets⟩
  · rfl
  · exact congrArg (fun data => Buffer.mk (some data)) (List.append_nil octets)

theorem append_append (b : Buffer) (first second : Bytes) :
    (b.append first).append second = b.append (first ++ second) := by
  rcases b with ⟨_ | octets⟩
  · rfl
  · exact congrArg (fun data => Buffer.mk (some data)) (List.append_assoc octets first second)

theorem reads_of_eq {b : Buffer} {back : Prop} [Decidable back] {octets : Bytes}
    (h : b = if back then ⟨none⟩ else ⟨some octets⟩) :
    b.isReleased = decide back ∧ b.bytes = if back then [] else octets := by
  by_cases hback : back
  · rw [h, if_pos hback, decide_eq_true hback, if_pos hback]
    exact ⟨rfl, rfl⟩
  · rw [h, if_neg hback, decide_eq_false hback, if_neg hback]
    exact ⟨rfl, rfl⟩

end Buffer

namespace Ledger

/-! ## One deed -/

/-- What a deed is to a loan. -/
def seen (id : Nat) (loan : Loan) : Deed → Loan
  | .use id' use => if id' = id then loan.used use else loan
  | _ => loan

variable {l : Ledger} {id : Nat} {loan : Loan} {deeds : List Deed}

theorem mapIdx_seen_of_unused {d : Deed} (h : ∀ i loan, l.loans[i]? = some loan → seen i loan d = loan) :
    l.loans.mapIdx (fun i loan => seen i loan d) = l.loans := by
  refine List.mapIdx_eq_iff.2 fun i => ?_
  cases hloan : l.loans[i]? with
  | none => rfl
  | some loan => exact congrArg some (h i loan hloan).symm

theorem mapIdx_seen_use (h : l.loans[id]? = some loan) (use : Loan.Use) :
    l.loans.mapIdx (fun i loan => seen i loan (.use id use)) = l.loans.set id (loan.used use) := by
  refine List.mapIdx_eq_iff.2 fun i => ?_
  by_cases hi : id = i
  · subst hi
    rw [List.getElem?_set_self (List.getElem?_eq_some_iff.1 h).1, h, Option.map_some, seen, if_pos rfl]
  · rw [List.getElem?_set_ne hi]
    simp only [seen, if_neg hi, Option.map_id']

/-- **All that a deed does to the loans.** -/
theorem Step.loans {d : Deed} {f : Fate} {added : Option Loan} {l' : Ledger} (h : Step l d f added l') :
    l'.loans = l.loans.mapIdx (fun i loan => seen i loan d) ++ added.toList := by
  cases h with
  | adds new =>
    rw [mapIdx_seen_of_unused fun _ _ _ => ?_]
    · rfl
    · cases d with
      | acquire | copy => rfl
      | use id use => exact absurd rfl (new id use)
  | idles missing =>
    rw [mapIdx_seen_of_unused fun i loan hloan => ?_]
    · exact (List.append_nil _).symm
    · cases d with
      | acquire | copy => rfl
      | use id use =>
        refine if_neg fun hi => ?_
        rw [← hi, missing id use rfl] at hloan
        cases hloan
  | uses found use =>
    rw [mapIdx_seen_use found]
    rfl

theorem loan_next (h : l.loans[id]? = some loan) (d : Deed) : (l.next d).loans[id]? = some (seen id loan d) := by
  obtain ⟨hid, -⟩ := List.getElem?_eq_some_iff.1 h
  rw [(l.step d).loans, List.getElem?_append_left (by rwa [List.length_mapIdx]), List.getElem?_mapIdx, h,
    Option.map_some]

theorem loan_next_cases {d : Deed} (h : (l.next d).loans[id]? = some loan) :
    (∃ before, l.loans[id]? = some before ∧ loan = seen id before d) ∨
      id = l.loans.length ∧ l.entered d = some loan := by
  rw [(l.step d).loans] at h
  rcases Nat.lt_or_ge id l.loans.length with hid | hid
  · rw [List.getElem?_append_left (by rwa [List.length_mapIdx]), List.getElem?_mapIdx] at h
    obtain ⟨before, hbefore, rfl⟩ := Option.map_eq_some_iff.1 h
    exact .inl ⟨before, hbefore, rfl⟩
  · rw [List.getElem?_append_right (by rwa [List.length_mapIdx]), List.length_mapIdx] at h
    obtain ⟨hzero, hentered⟩ : id - l.loans.length = 0 ∧ l.entered d = some loan := by
      cases hd : l.entered d with
      | none => rw [hd] at h; cases h
      | some first =>
        rw [hd] at h
        cases hi : id - l.loans.length with
        | zero => rw [hi] at h; exact ⟨rfl, h⟩
        | succ i => rw [hi] at h; cases h
    exact .inr ⟨by omega, hentered⟩

/-! ## A run -/

/-- **Whatever happens**, a loan is what all the deeds have made of it. -/
theorem loan_after : ∀ {deeds : List Deed} {l : Ledger} {loan : Loan}, l.loans[id]? = some loan →
    (l.after deeds).loans[id]? = some (deeds.foldl (seen id) loan)
  | [], _, _, h => h
  | d :: _, l, _, h => loan_after (l := l.next d) (loan_next h d)

/-- **Every loan has been entered once** and is what the deeds since have made of it. -/
theorem entered_of_loan (hnew : l.loans = []) (h : (l.after deeds).loans[id]? = some loan) :
    ∃ pre d post first, deeds = pre ++ d :: post ∧ (l.after pre).loans.length = id ∧
      (l.after pre).entered d = some first ∧ loan = post.foldl (seen id) first := by
  induction deeds using List.reverseRecOn generalizing loan with
  | nil =>
    rw [show l.after [] = l from rfl, hnew] at h
    cases h
  | append_singleton deeds d ih =>
    rw [after_append_singleton] at h
    -- A loan from before the last deed has its history, to which the deed comes; a new one has none.
    rcases loan_next_cases h with ⟨before, hbefore, rfl⟩ | ⟨rfl, hentered⟩
    · obtain ⟨pre, e, post, first, rfl, hid, hfirst, rfl⟩ := ih hbefore
      exact ⟨pre, e, post ++ [d], first, by rw [List.append_assoc]; rfl, hid, hfirst, by rw [List.foldl_append]; rfl⟩
    · exact ⟨deeds, d, [], loan, rfl, rfl, hentered, rfl⟩

/-! ## What has become of a buffer -/

/-- Whether a deed parts with a buffer. -/
def parts (id : Nat) : Deed → Bool
  | .use id' .drop | .use id' .forget | .use id' (.promote ..) => id' = id
  | _ => false

/-- What a deed appends to a buffer. -/
def appended (id : Nat) : Deed → Bytes
  | .use id' (.extend data) => if id' = id then data else []
  | _ => []

def written (id : Nat) (deeds : List Deed) : Bytes := deeds.flatMap (appended id)

theorem foldl_seen_gone : ∀ deeds : List Deed, deeds.foldl (seen id) .gone = .gone
  | [] => rfl
  | d :: rest => by
    have hd : seen id .gone d = .gone := by
      cases d with
      | acquire | copy => rfl
      | use id' use =>
        rw [seen]
        split
        · cases use <;> rfl
        · rfl
    rw [List.foldl_cons, hd]
    exact foldl_seen_gone rest

theorem foldl_seen {β : Type} {kind : β → Loan} {parted : Deed → Bool} {keep : β → Deed → β}
    (h : ∀ x d, seen id (kind x) d = if parted d then .gone else kind (keep x d)) : ∀ (deeds : List Deed) (x : β),
    deeds.foldl (seen id) (kind x) = if deeds.any parted then .gone else kind (deeds.foldl keep x)
  | [], _ => rfl
  | d :: rest, x => by
    rw [List.foldl_cons, h, List.any_cons, List.foldl_cons]
    by_cases hparted : parted d = true
    · rw [if_pos hparted, foldl_seen_gone, hparted, Bool.true_or, if_pos rfl]
    · rw [if_neg hparted, foldl_seen h rest, Bool.eq_false_iff.2 hparted, Bool.false_or]

/-- What a deed that does not part with a buffer makes of it. -/
def kept (id : Nat) (b : Buffer) (d : Deed) : Buffer :=
  if d = .use id .release then ⟨none⟩ else b.append (appended id d)

theorem seen_buffer (id : Nat) (b : Buffer) (d : Deed) :
    seen id (.buffer b) d = if parts id d then .gone else .buffer (kept id b d) := by
  cases d with
  | acquire | copy =>
    exact congrArg Loan.buffer b.append_nil.symm
  | use id' use =>
    by_cases hid : id' = id
    · subst hid
      cases use <;> simp [seen, parts, kept, Loan.used, appended, Buffer.append_nil]
    · have hparts : parts id (.use id' use) = false := by
        cases use <;> first | rfl | exact decide_eq_false hid
      have happended : appended id (.use id' use) = [] := by
        cases use <;> first | rfl | exact if_neg hid
      have hrelease : ¬Deed.use id' use = .use id .release := fun h => hid (Deed.use.inj h).1
      rw [hparts, kept, if_neg hrelease, happended, b.append_nil]
      exact if_neg hid

theorem foldl_kept : ∀ (deeds : List Deed) (b : Buffer),
    deeds.foldl (kept id) b = if .use id .release ∈ deeds then ⟨none⟩ else b.append (written id deeds)
  | [], b => b.append_nil.symm
  | d :: rest, b => by
    rw [List.foldl_cons, foldl_kept rest, kept]
    by_cases hrelease : d = .use id .release
    · rw [if_pos hrelease, if_pos (List.mem_cons.2 (.inl hrelease.symm))]
      exact ite_self _
    · rw [if_neg hrelease, b.append_append]
      simp only [List.mem_cons, Ne.symm hrelease, false_or]
      rfl

/-- **What has become of a buffer.**  It is gone if it has been parted with, released if it has been given back, and
otherwise holds what it held and what has been written since. -/
theorem foldl_seen_buffer (deeds : List Deed) (b : Buffer) : deeds.foldl (seen id) (.buffer b) =
    if deeds.any (parts id) then .gone
    else .buffer (if .use id .release ∈ deeds then ⟨none⟩ else b.append (written id deeds)) := by
  rw [foldl_seen (seen_buffer id), foldl_kept]

/-! ## What has become of an access unit -/

def partsUnit (id : Nat) (d : Deed) : Bool := d = .use id .dropUnit || d = .use id .forgetUnit

def keptUnit (id : Nat) (u : AccessUnit) (d : Deed) : AccessUnit :=
  if d = .use id .releaseUnit then { u with buffer := ⟨none⟩ } else u

theorem seen_unit (id : Nat) (u : AccessUnit) (d : Deed) :
    seen id (.unit u) d = if partsUnit id d then .gone else .unit (keptUnit id u d) := by
  cases d with
  | acquire | copy => rfl
  | use id' use =>
    by_cases hid : id' = id
    · subst hid
      cases use <;> simp [seen, partsUnit, keptUnit, Loan.used]
    · have hne (use' : Loan.Use) : ¬Deed.use id' use = .use id use' := fun h => hid (Deed.use.inj h).1
      have hparts : partsUnit id (.use id' use) = false := by
        rw [partsUnit, decide_eq_false (hne _), decide_eq_false (hne _), Bool.or_false]
      rw [hparts, keptUnit, if_neg (hne _)]
      exact if_neg hid

theorem foldl_keptUnit : ∀ (deeds : List Deed) (u : AccessUnit),
    deeds.foldl (keptUnit id) u = if .use id .releaseUnit ∈ deeds then { u with buffer := ⟨none⟩ } else u
  | [], _ => rfl
  | d :: rest, u => by
    rw [List.foldl_cons, foldl_keptUnit rest, keptUnit]
    by_cases hrelease : d = .use id .releaseUnit
    · rw [if_pos hrelease, if_pos (List.mem_cons.2 (.inl hrelease.symm))]
      exact ite_self _
    · rw [if_neg hrelease]
      simp only [List.mem_cons, Ne.symm hrelease, false_or]

/-- **What has become of an access unit.** -/
theorem foldl_seen_unit (deeds : List Deed) (u : AccessUnit) : deeds.foldl (seen id) (.unit u) =
    if deeds.any (partsUnit id) then .gone
    else .unit (if .use id .releaseUnit ∈ deeds then { u with buffer := ⟨none⟩ } else u) := by
  rw [foldl_seen (seen_unit id), foldl_keptUnit]

/-! ## Where a loan comes from -/

/-- What a deed fills a new access unit with. -/
def fills (l : Ledger) : Deed → Option Bytes
  | .copy data .. => some data
  | .use id (.promote ..) => (l.buffer? id).map (·.bytes)
  | _ => none

/-- A loan begins as an empty buffer or as a unit that has been filled. -/
theorem entered_cases {d : Deed} {first : Loan} (h : l.entered d = some first) :
    d = .acquire ∧ l.pool.HasRoom ∧ first = .buffer {} ∨
      ∃ octets u, l.fills d = some octets ∧ first = .unit u ∧ u.buffer = ⟨some octets⟩ := by
  cases d with
  | acquire =>
    obtain ⟨hroom, h⟩ := Option.ite_none_right_eq_some.1 h
    exact .inl ⟨rfl, hroom, (Option.some.inj h).symm⟩
  | copy data isKeyFrame timestamp captureTicks =>
    obtain ⟨-, h⟩ := Option.ite_none_right_eq_some.1 h
    exact .inr ⟨data, _, rfl, (Option.some.inj h).symm, rfl⟩
  | use id use =>
    obtain ⟨loan, hloan, h⟩ := Option.bind_eq_some_iff.1 h
    cases loan with
    | unit | gone => cases use <;> cases h
    | buffer b =>
      cases use with
      | extend | release | drop | forget | releaseUnit | dropUnit | forgetUnit => cases h
      | promote isKeyFrame timestamp captureTicks =>
        obtain ⟨hopens, h⟩ := Option.ite_none_right_eq_some.1 h
        have hbuffer : l.buffer? id = some b := by rw [buffer?, hloan]
        rcases b with ⟨_ | octets⟩
        · cases hopens
        · exact .inr ⟨octets, _, congrArg (Option.map Buffer.bytes) hbuffer, (Option.some.inj h).symm, rfl⟩

theorem loan_of_buffer? {b : Buffer} (h : l.buffer? id = some b) : l.loans[id]? = some (.buffer b) := by
  unfold buffer? at h
  split at h
  · rename_i hloan
    rw [hloan, Option.some.inj h]
  · cases h

theorem loan_of_unit? {u : AccessUnit} (h : l.unit? id = some u) : l.loans[id]? = some (.unit u) := by
  unfold unit? at h
  split at h
  · rename_i hloan
    rw [hloan, Option.some.inj h]
  · cases h

/-- **Every buffer has been acquired once**, and holds what has been written since, unless it has been given back. -/
theorem acquired_of_buffer (hnew : l.loans = []) {b : Buffer} (h : (l.after deeds).buffer? id = some b) :
    ∃ pre post, deeds = pre ++ .acquire :: post ∧ (l.after pre).acquire.1 = .ok id ∧
      b = if .use id .release ∈ post then ⟨none⟩ else ⟨some (written id post)⟩ := by
  obtain ⟨pre, d, post, first, rfl, hid, hentered, hfold⟩ := entered_of_loan hnew (loan_of_buffer? h)
  rcases entered_cases hentered with ⟨rfl, hroom, rfl⟩ | ⟨octets, u, -, rfl, -⟩
  · refine ⟨pre, post, rfl, by rw [acquire_of_room hroom, hid], ?_⟩
    rw [foldl_seen_buffer] at hfold
    split at hfold
    · cases hfold
    · exact Loan.buffer.inj hfold
  · rw [foldl_seen_unit] at hfold
    split at hfold <;> cases hfold

/-- **Every access unit has been filled once**, and keeps its bytes until it is given back. -/
theorem filled_of_unit (hnew : l.loans = []) {u : AccessUnit} (h : (l.after deeds).unit? id = some u) :
    ∃ pre d post octets, deeds = pre ++ d :: post ∧ (l.after pre).loans.length = id ∧
      (l.after pre).fills d = some octets ∧
      u.buffer = if .use id .releaseUnit ∈ post then ⟨none⟩ else ⟨some octets⟩ := by
  obtain ⟨pre, d, post, first, rfl, hid, hentered, hfold⟩ := entered_of_loan hnew (loan_of_unit? h)
  rcases entered_cases hentered with ⟨-, -, rfl⟩ | ⟨octets, first, hfills, rfl, hbuffer⟩
  · rw [foldl_seen_buffer] at hfold
    split at hfold <;> cases hfold
  · refine ⟨pre, d, post, octets, rfl, hid, hfills, ?_⟩
    rw [foldl_seen_unit] at hfold
    split at hfold
    · cases hfold
    · rw [Loan.unit.inj hfold]
      split
      · rfl
      · exact hbuffer

/-! ## What calls answer -/

theorem acquire_isOk_iff (l : Ledger) : l.acquire.1.isOk = true ↔ l.pool.HasRoom := by
  by_cases hroom : l.pool.HasRoom
  · rw [acquire_of_room hroom]
    exact iff_of_true rfl hroom
  · rw [acquire_of_full hroom]
    exact iff_of_false nofun hroom

theorem acquire_of_fails (h : l.acquire.1.isOk = false) : l.acquire.2 = l := by
  rw [acquire_of_full fun hroom => Bool.eq_false_iff.1 h (l.acquire_isOk_iff.2 hroom)]

theorem enterUnit_isOk_iff (l : Ledger) (data : Bytes) (isKeyFrame : Bool) (timestamp : UInt32) (captureTicks : Int) :
    (l.enterUnit data isKeyFrame timestamp captureTicks).1.isOk = true ↔
      opensWithStartCode data = true ∧ l.pool.HasRoom := by
  by_cases hopens : opensWithStartCode data = true
  · by_cases hroom : l.pool.HasRoom
    · rw [enterUnit_of_room hroom hopens]
      exact iff_of_true rfl ⟨hopens, hroom⟩
    · rw [enterUnit_of_full hroom hopens]
      exact iff_of_false nofun fun h => hroom h.2
  · rw [enterUnit_of_not_opens hopens]
    exact iff_of_false nofun fun h => hopens h.1

theorem enterUnit_of_fails {data : Bytes} {isKeyFrame : Bool} {timestamp : UInt32} {captureTicks : Int}
    (h : (l.enterUnit data isKeyFrame timestamp captureTicks).1.isOk = false) :
    (l.enterUnit data isKeyFrame timestamp captureTicks).2 = l := by
  by_cases hopens : opensWithStartCode data = true
  · rw [enterUnit_of_full (fun hroom => ?_) hopens]
    exact Bool.eq_false_iff.1 h ((l.enterUnit_isOk_iff ..).2 ⟨hopens, hroom⟩)
  · rw [enterUnit_of_not_opens hopens]

theorem release_answer {b : Buffer} (h : l.buffer? id = some b) : (l.release id).1 = some !b.isReleased := by
  rw [release, h]
  rcases b with ⟨_ | octets⟩ <;> rfl

theorem promote_refused {b : Buffer} (h : l.buffer? id = some b) (hopens : ¬opensWithStartCode b.bytes = true)
    (isKeyFrame : Bool) (timestamp : UInt32) (captureTicks : Int) :
    l.promote id isKeyFrame timestamp captureTicks =
      (some (.error .noStartCode), { l with pool := (b.release l.pool).2.2 }.set id .gone) := by
  simp only [promote, drop, h, AccessUnit.ofBuffer, if_neg hopens]

/-- Taking a buffer back makes one less out and one more idle, unless that has been done. -/
theorem release_numbers {b : Buffer} (h : l.buffer? id = some b) (hheld : l.out ≤ l.pool.outstanding)
    (hroom : l.pool.idle + l.pool.outstanding ≤ l.pool.limit) :
    (b.release l.pool).2.2.outstanding + (if b.isReleased then 0 else 1) = l.pool.outstanding ∧
      (b.release l.pool).2.2.idle = l.pool.idle + if b.isReleased then 0 else 1 := by
  have hshare := Nat.le_trans (share_le_out (loan_of_buffer? h)) hheld
  rcases b with ⟨_ | octets⟩
  · exact ⟨rfl, rfl⟩
  · have hpos : 1 ≤ l.pool.outstanding := hshare
    exact ⟨Nat.sub_add_cancel hpos, Pool.idle_release (by omega) octets⟩

theorem lives_of_acquired (h : l.acquire.1 = .ok id) (hparts : deeds.any (parts id) = false) :
    (((l.next .acquire).after deeds).buffer? id).isSome = true := by
  have hroom : l.pool.HasRoom := l.acquire_isOk_iff.1 (by rw [h]; rfl)
  rw [acquire_of_room hroom] at h
  obtain rfl := Except.ok.inj h
  have hentered : (l.next .acquire).loans[l.loans.length]? = some (.buffer {}) := by
    rw [next, acquire_of_room hroom]
    exact List.getElem?_concat_length
  have hloan : ((l.next .acquire).after deeds).loans[l.loans.length]? = _ := loan_after hentered
  rw [foldl_seen_buffer, hparts, if_neg Bool.false_ne_true] at hloan
  rw [buffer?, hloan]
  rfl

/-! ## The whole account -/

/-- What can be relied on after a run from an empty pool. -/
structure Audited (limit : Nat) (deeds : List Deed) (l : Ledger) : Prop where
  books : Balanced (ofLimit limit) deeds
  bounded : l.pool.outstanding ≤ limit
  acquires : l.acquire.1.isOk = true ↔ l.pool.outstanding < limit
  acquires_unchanged : l.acquire.1.isOk = false → l.acquire.2 = l
  copies (data : Bytes) (isKeyFrame : Bool) (timestamp : UInt32) (captureTicks : Int) :
    (l.enterUnit data isKeyFrame timestamp captureTicks).1.isOk = true ↔
      opensWithStartCode data = true ∧ l.pool.outstanding < limit
  copies_unchanged (data : Bytes) (isKeyFrame : Bool) (timestamp : UInt32) (captureTicks : Int) :
    (l.enterUnit data isKeyFrame timestamp captureTicks).1.isOk = false →
      (l.enterUnit data isKeyFrame timestamp captureTicks).2 = l
  /-- A buffer without a start code is refused as a unit and goes back to the pool, unless it is there already. -/
  refuses (id : Nat) (b : Buffer) (isKeyFrame : Bool) (timestamp : UInt32) (captureTicks : Int) :
    l.buffer? id = some b → opensWithStartCode b.bytes = false →
      let refused := l.promote id isKeyFrame timestamp captureTicks
      refused.1 = some (.error .noStartCode) ∧ refused.2.loans = l.loans.set id .gone ∧
        refused.2.pool.outstanding + (if b.isReleased then 0 else 1) = l.pool.outstanding ∧
        refused.2.pool.idle = l.pool.idle + if b.isReleased then 0 else 1
  /-- A live buffer reads as what has been written since it was acquired, until it is given back; and only the call that
  gives it back answers so. -/
  reads (id : Nat) (b : Buffer) : l.buffer? id = some b →
    ∃ pre post, deeds = pre ++ .acquire :: post ∧ ((ofLimit limit).after pre).acquire.1 = .ok id ∧
      b.isReleased = decide (.use id .release ∈ post) ∧
      b.bytes = (if .use id .release ∈ post then [] else written id post) ∧
      (l.release id).1 = some (decide (.use id .release ∉ post))
  /-- A buffer lives until it is parted with. -/
  lives (pre post : List Deed) (id : Nat) : deeds = pre ++ .acquire :: post →
    ((ofLimit limit).after pre).acquire.1 = .ok id → post.any (parts id) = false → (l.buffer? id).isSome = true
  /-- A live unit reads as what it has been filled with, until it is given back. -/
  readsUnit (id : Nat) (u : AccessUnit) : l.unit? id = some u →
    ∃ pre d post octets, deeds = pre ++ d :: post ∧ ((ofLimit limit).after pre).loans.length = id ∧
      ((ofLimit limit).after pre).fills d = some octets ∧
      u.isReleased = decide (.use id .releaseUnit ∈ post) ∧
      u.bytes = if .use id .releaseUnit ∈ post then [] else octets

/-- **Whatever is done with a pool**, it can account for every buffer: how many are out, how many ever were, which calls
are refused and what they leave behind, and what each live buffer holds. -/
theorem audited_after (limit : Nat) (deeds : List Deed) : Audited limit deeds ((ofLimit limit).after deeds) := by
  have hbooks := balanced_after limit deeds
  have hlimit : ((ofLimit limit).after deeds).pool.limit = limit := hbooks.limit
  have hroom : ((ofLimit limit).after deeds).pool.idle + ((ofLimit limit).after deeds).pool.outstanding ≤ limit :=
    hbooks.room
  have hheld := hbooks.held
  generalize hl : (ofLimit limit).after deeds = l at hlimit hroom hheld ⊢
  have hhasRoom : l.pool.HasRoom ↔ l.pool.outstanding < limit := by rw [Pool.HasRoom, hlimit]
  refine ⟨hbooks, Nat.le_trans (Nat.le_add_left _ _) hroom, ?_, ?_, ?_, ?_, ?_, ?_, ?_, ?_⟩
  · rw [acquire_isOk_iff, hhasRoom]
  · exact acquire_of_fails
  · intro data isKeyFrame timestamp captureTicks
    rw [enterUnit_isOk_iff, hhasRoom]
  · exact fun _ _ _ _ => enterUnit_of_fails
  · intro id b isKeyFrame timestamp captureTicks hb hopens
    have hnumbers := release_numbers hb (hheld ▸ Nat.le_add_right _ _) (by rwa [hlimit])
    intro refused
    have hrefused : refused = _ := promote_refused hb (Bool.eq_false_iff.1 hopens) isKeyFrame timestamp captureTicks
    rw [hrefused]
    exact ⟨rfl, rfl, hnumbers⟩
  · intro id b hb
    rw [← hl] at hb
    obtain ⟨pre, post, hdeeds, hacquired, hbuffer⟩ := acquired_of_buffer rfl hb
    rw [hl] at hb
    obtain ⟨hreleased, hbytes⟩ := Buffer.reads_of_eq hbuffer
    exact ⟨pre, post, hdeeds, hacquired, hreleased, hbytes, by rw [release_answer hb, hreleased, decide_not]⟩
  · rintro pre post id rfl hacquired hparts
    rw [← hl, after, List.foldl_append]
    exact lives_of_acquired hacquired hparts
  · intro id u hu
    rw [← hl] at hu
    obtain ⟨pre, d, post, octets, hdeeds, hid, hfills, hbuffer⟩ := filled_of_unit rfl hu
    exact ⟨pre, d, post, octets, hdeeds, hid, hfills, Buffer.reads_of_eq hbuffer⟩

end Ledger
end VideoTransport
