import Mathlib.Data.List.Induction
import Mathlib.Order.Bounds.Basic
import VideoTransport.Buffer.Ledger
import VideoTransport.Proofs.Assembly
/-!
# Lending — the books of a pool

A deed adds a loan with a buffer of the pool, is refused, or uses a loan that is there (`Ledger.step`).  So it lends one
buffer, takes one back, loses one for good or leaves all where they are (`Ledger.Step.effect`), and over a run the
buffers that are out are those that live loans hold and those that have been lost; with the idle ones they are as many
as were ever out at once (`Ledger.balanced_after`).
-/
namespace VideoTransport

open AnnexB (opensWithStartCode)

theorem range_take_append_singleton {α β : Type} (f : List α → β) (xs : List α) (x : α) :
    Set.range (fun k => f ((xs ++ [x]).take k)) = insert (f (xs ++ [x])) (Set.range fun k => f (xs.take k)) := by
  ext b
  constructor
  · rintro ⟨k, rfl⟩
    rcases Nat.lt_or_ge xs.length k with hk | hk
    · have hall : (xs ++ [x]).take k = xs ++ [x] := List.take_of_length_le (by rw [List.length_append]; exact hk)
      exact .inl (congrArg f hall)
    · exact .inr ⟨k, congrArg f (List.take_append_of_le_length hk).symm⟩
  · rintro (rfl | ⟨k, rfl⟩)
    · exact ⟨(xs ++ [x]).length, congrArg f List.take_length⟩
    · have htake : (xs ++ [x]).take (min k xs.length) = xs.take k := by
        rw [List.take_append_of_le_length (Nat.min_le_right k _), ← List.take_eq_take_min]
      exact ⟨min k xs.length, congrArg f htake⟩

theorem Pool.idle_lend (p : Pool) : p.lend.idle = p.idle - 1 := List.length_tail

theorem Pool.idle_release {p : Pool} (h : p.idle < p.limit) (octets : Bytes) :
    (p.release octets).idle = p.idle + 1 := by
  rw [idle, release, if_pos h]
  rfl

/-! ## Loans in use -/

/-- What becomes of a buffer of the pool. -/
inductive Fate where
  /-- No buffer is lent or comes back. -/
  | stays
  | lent
  | back
  /-- It is forgotten before it has been given back. -/
  | lost
  deriving DecidableEq

namespace Loan

inductive Use where
  | extend (data : Bytes)
  | release
  | drop
  | forget
  | promote (isKeyFrame : Bool) (timestamp : UInt32) (captureTicks : Int)
  | releaseUnit
  | dropUnit
  | forgetUnit
  deriving DecidableEq

def bytes : Loan → Bytes
  | .buffer b => b.bytes
  | .unit u => u.bytes
  | .gone => []

/-- Whether a loan holds a buffer of the pool. -/
def isOut : Loan → Bool
  | .buffer b => !b.isReleased
  | .unit u => !u.isReleased
  | .gone => false

def share (loan : Loan) : Nat := if loan.isOut then 1 else 0

/-- What a loan is after some use of it. -/
def used : Loan → Use → Loan
  | .buffer b, .extend data => .buffer (b.append data)
  | .buffer _, .release => .buffer ⟨none⟩
  | .buffer _, .drop | .buffer _, .forget | .buffer _, .promote .. => .gone
  | .unit u, .releaseUnit => .unit { u with buffer := ⟨none⟩ }
  | .unit _, .dropUnit | .unit _, .forgetUnit => .gone
  | loan, _ => loan

def promoted : Loan → Use → Option Loan
  | .buffer b, .promote isKeyFrame timestamp captureTicks =>
    if opensWithStartCode b.bytes then some (.unit ⟨b, isKeyFrame, timestamp, captureTicks⟩) else none
  | _, _ => none

/-- What some use of a loan means for the buffer in it, as long as there is one. -/
def meaning : Loan → Use → Fate
  | .buffer _, .release | .buffer _, .drop | .unit _, .releaseUnit | .unit _, .dropUnit => .back
  | .buffer _, .forget | .unit _, .forgetUnit => .lost
  | .buffer b, .promote .. => if opensWithStartCode b.bytes then .stays else .back
  | _, _ => .stays

/-- What becomes of the buffer of a loan in some use of it. -/
def fate (loan : Loan) (use : Use) : Fate := if loan.isOut then loan.meaning use else .stays

/-- A buffer stays in the loan or in the unit that is made of it, or it leaves the loan. -/
theorem fate_cases (loan : Loan) (use : Use) :
    loan.fate use = .stays ∧ (loan.used use).share + ((loan.promoted use).map share).getD 0 = loan.share ∨
      (loan.fate use = .back ∨ loan.fate use = .lost) ∧ loan.share = 1 ∧ (loan.used use).share = 0 ∧
        loan.promoted use = none := by
  rcases loan with ⟨⟨_ | octets⟩⟩ | ⟨⟨⟨_ | octets⟩, isKeyFrame, timestamp, captureTicks⟩⟩ | _
  · cases use <;> exact .inl ⟨rfl, rfl⟩
  · cases use with
    | extend | releaseUnit | dropUnit | forgetUnit => exact .inl ⟨rfl, rfl⟩
    | release | drop => exact .inr ⟨.inl rfl, rfl, rfl, rfl⟩
    | forget => exact .inr ⟨.inr rfl, rfl, rfl, rfl⟩
    | promote isKeyFrame timestamp captureTicks =>
      by_cases hopens : opensWithStartCode octets = true
      · have hpromoted : (Loan.buffer ⟨some octets⟩).promoted (.promote isKeyFrame timestamp captureTicks) =
            some (.unit ⟨⟨some octets⟩, isKeyFrame, timestamp, captureTicks⟩) := if_pos hopens
        exact .inl ⟨if_pos hopens, by rw [hpromoted]; rfl⟩
      · exact .inr ⟨.inl (if_neg hopens), rfl, rfl, if_neg hopens⟩
  · cases use <;> exact .inl ⟨rfl, rfl⟩
  · cases use with
    | extend | release | drop | forget | promote => exact .inl ⟨rfl, rfl⟩
    | releaseUnit | dropUnit => exact .inr ⟨.inl rfl, rfl, rfl, rfl⟩
    | forgetUnit => exact .inr ⟨.inr rfl, rfl, rfl, rfl⟩
  · cases use <;> exact .inl ⟨rfl, rfl⟩

end Loan

namespace Ledger

/-- What may be done with a pool and its loans. -/
inductive Deed where
  | acquire
  | copy (data : Bytes) (isKeyFrame : Bool) (timestamp : UInt32) (captureTicks : Int)
  | use (id : Nat) (use : Loan.Use)
  deriving DecidableEq

def use (l : Ledger) (id : Nat) : Loan.Use → Ledger
  | .extend data => l.extend id data
  | .release => (l.release id).2
  | .drop => (l.drop id).2
  | .forget => (l.forget id).2
  | .promote isKeyFrame timestamp captureTicks => (l.promote id isKeyFrame timestamp captureTicks).2
  | .releaseUnit => l.releaseUnit id
  | .dropUnit => (l.dropUnit id).2
  | .forgetUnit => (l.forgetUnit id).2

def next (l : Ledger) : Deed → Ledger
  | .acquire => l.acquire.2
  | .copy data isKeyFrame timestamp captureTicks => (l.enterUnit data isKeyFrame timestamp captureTicks).2
  | .use id use => l.use id use

def after (l : Ledger) (deeds : List Deed) : Ledger := deeds.foldl next l

def out (l : Ledger) : Nat := l.loans.countP Loan.isOut

def fate (l : Ledger) : Deed → Fate
  | .acquire => if l.acquire.1.isOk then .lent else .stays
  | .copy data isKeyFrame timestamp captureTicks =>
    if (l.enterUnit data isKeyFrame timestamp captureTicks).1.isOk then .lent else .stays
  | .use id use => (l.loans[id]?.map (·.fate use)).getD .stays

/-- The loan that a deed adds. -/
def entered (l : Ledger) : Deed → Option Loan
  | .acquire => if l.pool.HasRoom then some (.buffer {}) else none
  | .copy data isKeyFrame timestamp captureTicks =>
    if opensWithStartCode data = true ∧ l.pool.HasRoom then
      some (.unit ⟨⟨some data⟩, isKeyFrame, timestamp, captureTicks⟩)
    else none
  | .use id use => l.loans[id]?.bind (·.promoted use)

def fates : Ledger → List Deed → List Fate
  | _, [] => []
  | l, d :: rest => l.fate d :: (l.next d).fates rest

/-! ## Using a loan -/

variable {l : Ledger} {id : Nat} {loan : Loan}

theorem use_of_none (hbuffer : l.buffer? id = none) (hunit : l.unit? id = none) (use : Loan.Use) :
    l.use id use = l := by
  cases use <;>
    simp only [Ledger.use, extend, release, drop, forget, promote, releaseUnit, dropUnit, forgetUnit, hbuffer, hunit]

/-- What a use of a loan should do: the loan becomes what it is used as, a promoted buffer is entered as a unit, and the
pool takes back what comes back. -/
def settle (l : Ledger) (id : Nat) (loan : Loan) (use : Loan.Use) : Ledger where
  pool := if loan.fate use = .back then l.pool.release loan.bytes else l.pool
  loans := l.loans.set id (loan.used use) ++ (loan.promoted use).toList

theorem settle_of_unused (h : l.loans[id]? = some loan) {use : Loan.Use} (hused : loan.used use = loan)
    (hpromoted : loan.promoted use = none) (hmeaning : loan.meaning use = .stays) : l.settle id loan use = l := by
  obtain ⟨hid, rfl⟩ := List.getElem?_eq_some_iff.1 h
  have hfate : l.loans[id].fate use = .stays := by rw [Loan.fate, hmeaning, ite_self]
  unfold settle
  rw [hused, hpromoted, hfate, List.set_getElem_self]
  exact congrArg (Ledger.mk l.pool) (List.append_nil l.loans)

theorem settle_of_kept {pool : Pool} {use : Loan.Use} (hpromoted : loan.promoted use = none)
    (hpool : (if loan.fate use = .back then l.pool.release loan.bytes else l.pool) = pool) :
    l.settle id loan use = { l with pool }.set id (loan.used use) := by
  unfold settle
  rw [hpromoted, hpool]
  exact congrArg (Ledger.mk pool) (List.append_nil _)

theorem use_buffer {b : Buffer} (h : l.loans[id]? = some (.buffer b)) (use : Loan.Use) :
    l.use id use = l.settle id (.buffer b) use := by
  have hbuffer : l.buffer? id = some b := by rw [buffer?, h]
  have hunit : l.unit? id = none := by rw [unit?, h]
  cases use with
  | extend | release | drop | forget =>
    simp only [Ledger.use, extend, release, drop, forget, hbuffer]
    rcases b with ⟨_ | octets⟩ <;> exact Eq.symm (settle_of_kept rfl rfl)
  | promote isKeyFrame timestamp captureTicks =>
    by_cases hopens : opensWithStartCode b.bytes = true
    · have hfate : (Loan.buffer b).fate (.promote isKeyFrame timestamp captureTicks) = .stays := by
        rw [Loan.fate, Loan.meaning, if_pos hopens, ite_self]
      rw [settle, Loan.promoted, if_pos hopens, hfate]
      simp only [Ledger.use, promote, hbuffer, AccessUnit.ofBuffer, if_pos hopens]
      rfl
    · have hpromoted : (Loan.buffer b).promoted (.promote isKeyFrame timestamp captureTicks) = none := if_neg hopens
      rw [settle_of_kept hpromoted rfl]
      simp only [Ledger.use, promote, drop, hbuffer, AccessUnit.ofBuffer, Loan.fate, Loan.meaning, if_neg hopens]
      rcases b with ⟨_ | octets⟩ <;> rfl
  | releaseUnit | dropUnit | forgetUnit =>
    rw [settle_of_unused h rfl rfl rfl]
    simp only [Ledger.use, releaseUnit, dropUnit, forgetUnit, hunit]

theorem use_unit {u : AccessUnit} (h : l.loans[id]? = some (.unit u)) (use : Loan.Use) :
    l.use id use = l.settle id (.unit u) use := by
  have hbuffer : l.buffer? id = none := by rw [buffer?, h]
  have hunit : l.unit? id = some u := by rw [unit?, h]
  cases use with
  | extend | release | drop | forget | promote =>
    rw [settle_of_unused h rfl rfl rfl]
    simp only [Ledger.use, extend, release, drop, forget, promote, hbuffer]
  | releaseUnit | dropUnit | forgetUnit =>
    simp only [Ledger.use, releaseUnit, dropUnit, forgetUnit, hunit]
    rcases u with ⟨⟨_ | octets⟩, isKeyFrame, timestamp, captureTicks⟩ <;> exact Eq.symm (settle_of_kept rfl rfl)

/-- **Whatever is done with a loan**, it is settled. -/
theorem use_of_some (h : l.loans[id]? = some loan) (use : Loan.Use) : l.use id use = l.settle id loan use := by
  cases loan with
  | buffer b => exact use_buffer h use
  | unit u => exact use_unit h use
  | gone =>
    rw [settle_of_unused h (by cases use <;> rfl) (by cases use <;> rfl) (by cases use <;> rfl)]
    exact use_of_none (by rw [buffer?, h]) (by rw [unit?, h]) use

/-! ## Acquiring and copying -/

theorem acquire_of_room (hroom : l.pool.HasRoom) :
    l.acquire = (.ok l.loans.length, ⟨l.pool.lend, l.loans ++ [.buffer {}]⟩) := by
  rw [acquire, Pool.acquire_of_room hroom]
  rfl

theorem acquire_of_full (hfull : ¬l.pool.HasRoom) : l.acquire = (.error (.poolExhausted l.pool.limit), l) := by
  rw [acquire, Pool.acquire_of_full hfull]

theorem enterUnit_of_room (hroom : l.pool.HasRoom) {data : Bytes} (hopens : opensWithStartCode data = true)
    (isKeyFrame : Bool) (timestamp : UInt32) (captureTicks : Int) :
    l.enterUnit data isKeyFrame timestamp captureTicks =
      (.ok l.loans.length, ⟨l.pool.lend, l.loans ++ [.unit ⟨⟨some data⟩, isKeyFrame, timestamp, captureTicks⟩]⟩) := by
  simp only [enterUnit, AccessUnit.ofBytes, if_pos hopens, Pool.acquire_of_room hroom]
  rfl

theorem enterUnit_of_full (hfull : ¬l.pool.HasRoom) {data : Bytes} (hopens : opensWithStartCode data = true)
    (isKeyFrame : Bool) (timestamp : UInt32) (captureTicks : Int) :
    l.enterUnit data isKeyFrame timestamp captureTicks = (.error (.poolExhausted l.pool.limit), l) := by
  simp only [enterUnit, AccessUnit.ofBytes, if_pos hopens, Pool.acquire_of_full hfull]
  rfl

theorem enterUnit_of_not_opens {data : Bytes} (hopens : ¬opensWithStartCode data = true)
    (isKeyFrame : Bool) (timestamp : UInt32) (captureTicks : Int) :
    l.enterUnit data isKeyFrame timestamp captureTicks = (.error .noStartCode, l) := by
  simp only [enterUnit, AccessUnit.ofBytes, if_neg hopens]

/-! ## One deed -/

/-- **All that a deed can do**: it adds a loan with a buffer of the pool, it is refused or means nothing, or a loan is
used. -/
inductive Step (l : Ledger) : Deed → Fate → Option Loan → Ledger → Prop
  | adds {d : Deed} {loan : Loan} (new : ∀ id use, d ≠ .use id use) (room : l.pool.HasRoom) (share : loan.share = 1) :
    Step l d .lent (some loan) ⟨l.pool.lend, l.loans ++ [loan]⟩
  | idles {d : Deed} (missing : ∀ id use, d = .use id use → l.loans[id]? = none) : Step l d .stays none l
  | uses {id : Nat} {loan : Loan} (found : l.loans[id]? = some loan) (use : Loan.Use) :
    Step l (.use id use) (loan.fate use) (loan.promoted use) (l.settle id loan use)

theorem step (l : Ledger) (d : Deed) : Step l d (l.fate d) (l.entered d) (l.next d) := by
  cases d with
  | acquire =>
    have hnew (id : Nat) (use : Loan.Use) : Deed.acquire ≠ .use id use := nofun
    by_cases hroom : l.pool.HasRoom
    · rw [next, fate, acquire_of_room hroom, entered, if_pos hroom]
      exact .adds hnew hroom rfl
    · rw [next, fate, acquire_of_full hroom, entered, if_neg hroom]
      exact .idles fun id use h => absurd h (hnew id use)
  | copy data isKeyFrame timestamp captureTicks =>
    have hnew (id : Nat) (use : Loan.Use) : Deed.copy data isKeyFrame timestamp captureTicks ≠ .use id use := nofun
    by_cases hopens : opensWithStartCode data = true
    · by_cases hroom : l.pool.HasRoom
      · rw [entered, if_pos ⟨hopens, hroom⟩, next, fate, enterUnit_of_room hroom hopens]
        exact .adds hnew hroom rfl
      · rw [entered, if_neg fun h => hroom h.2, next, fate, enterUnit_of_full hroom hopens]
        exact .idles fun id use h => absurd h (hnew id use)
    · rw [entered, if_neg fun h => hopens h.1, next, fate, enterUnit_of_not_opens hopens]
      exact .idles fun id use h => absurd h (hnew id use)
  | use id use =>
    rw [next, fate, entered]
    cases h : l.loans[id]? with
    | none =>
      rw [use_of_none (by rw [buffer?, h]) (by rw [unit?, h])]
      exact .idles fun _ _ hd => (Deed.use.inj hd).1 ▸ h
    | some loan =>
      rw [use_of_some h]
      exact .uses h use

/-! ## What a deed means for the buffers -/

/-- What a deed of some fate does to the pool and to the loans. -/
inductive Effect (l l' : Ledger) : Fate → Prop
  | stays (pool : l'.pool = l.pool) (out : l'.out = l.out) : Effect l l' .stays
  | lent (room : l.pool.HasRoom) (pool : l'.pool = l.pool.lend) (out : l'.out = l.out + 1) : Effect l l' .lent
  | back (octets : Bytes) (pool : l'.pool = l.pool.release octets) (out : l'.out + 1 = l.out) : Effect l l' .back
  | lost (pool : l'.pool = l.pool) (out : l'.out + 1 = l.out) : Effect l l' .lost

theorem share_le_out (h : l.loans[id]? = some loan) : loan.share ≤ l.out := by
  unfold Loan.share
  split
  · exact List.countP_pos_iff.2 ⟨loan, List.mem_of_getElem? h, ‹_›⟩
  · exact Nat.zero_le _

theorem out_set (h : l.loans[id]? = some loan) (loan' : Loan) :
    (l.set id loan').out + loan.share = l.out + loan'.share := by
  have hshare := share_le_out h
  obtain ⟨hid, rfl⟩ := List.getElem?_eq_some_iff.1 h
  show (l.loans.set id loan').countP Loan.isOut + l.loans[id].share = l.out + loan'.share
  rw [List.countP_set hid, Nat.add_right_comm]
  exact congrArg (· + _) (Nat.sub_add_cancel hshare)

theorem out_append (pool : Pool) (loans : List Loan) (loan : Loan) :
    (⟨pool, loans ++ [loan]⟩ : Ledger).out = (⟨pool, loans⟩ : Ledger).out + loan.share := by
  show (loans ++ [loan]).countP Loan.isOut = _
  rw [List.countP_append, List.countP_singleton]
  rfl

theorem out_settle (h : l.loans[id]? = some loan) (use : Loan.Use) :
    (l.settle id loan use).out + loan.share =
      l.out + ((loan.used use).share + ((loan.promoted use).map Loan.share).getD 0) := by
  have hset := out_set h (loan.used use)
  cases hpromoted : loan.promoted use with
  | none =>
    rw [settle_of_kept hpromoted rfl]
    exact hset
  | some unit =>
    rw [settle, hpromoted]
    show (Ledger.out ⟨_, l.loans.set id (loan.used use) ++ [unit]⟩) + loan.share = _
    rw [out_append, Nat.add_right_comm]
    exact (congrArg (· + unit.share) hset).trans (Nat.add_assoc _ _ _)

theorem effect_use (h : l.loans[id]? = some loan) (use : Loan.Use) :
    Effect l (l.settle id loan use) (loan.fate use) := by
  have hout := out_settle h use
  rcases loan.fate_cases use with ⟨hfate, hshare⟩ | ⟨hfate, hshare, hused, hpromoted⟩
  · rw [hfate]
    refine .stays (by rw [settle, hfate]; rfl) ?_
    omega
  · rw [hused, hpromoted, hshare] at hout
    rcases hfate with hfate | hfate
    · rw [hfate]
      exact .back loan.bytes (by rw [settle, hfate]; rfl) hout
    · rw [hfate]
      exact .lost (by rw [settle, hfate]; rfl) hout

/-- **Every deed** lends a buffer, takes one back, loses one for good or leaves all where they are. -/
theorem Step.effect {d : Deed} {f : Fate} {added : Option Loan} {l' : Ledger} (h : Step l d f added l') :
    Effect l l' f := by
  cases h with
  | adds _ room share => exact .lent room rfl (by rw [out_append, share]; rfl)
  | idles => exact .stays rfl rfl
  | uses found use => exact effect_use found use

/-! ## The books over a run -/

theorem fates_append_singleton (d : Deed) : ∀ (l : Ledger) (deeds : List Deed),
    l.fates (deeds ++ [d]) = l.fates deeds ++ [(l.after deeds).fate d]
  | _, [] => rfl
  | l, e :: rest => congrArg (l.fate e :: ·) (fates_append_singleton d (l.next e) rest)

theorem after_append_singleton (l : Ledger) (deeds : List Deed) (d : Deed) :
    l.after (deeds ++ [d]) = (l.after deeds).next d := List.foldl_append

/-- How the numbers change in a deed, as long as there are no more buffers than the limit allows. -/
theorem Effect.numbers {l l' : Ledger} {f : Fate} (h : Effect l l' f) (hheld : l.out ≤ l.pool.outstanding)
    (hroom : l.pool.idle + l.pool.outstanding ≤ l.pool.limit) :
    l'.pool.limit = l.pool.limit ∧
      l'.pool.outstanding + [f].count .back = l.pool.outstanding + [f].count .lent ∧
      l'.pool.outstanding + l.out = l'.out + [f].count .lost + l.pool.outstanding ∧
      l'.pool.idle + l'.pool.outstanding = max l'.pool.outstanding (l.pool.idle + l.pool.outstanding) ∧
      l'.pool.outstanding ≤ l.pool.limit := by
  cases h with
  | stays pool out =>
    rw [pool, out]
    exact ⟨rfl, rfl, Nat.add_comm _ _, (max_eq_right (Nat.le_add_left _ _)).symm, by omega⟩
  | lent room pool out =>
    have hidle := l.pool.idle_lend
    have houtstanding : l.pool.lend.outstanding = l.pool.outstanding + 1 := rfl
    have hlt : l.pool.outstanding < l.pool.limit := room
    have hlost : [Fate.lent].count .lost = 0 := rfl
    rw [pool, out]
    exact ⟨rfl, rfl, by omega, by omega, hlt⟩
  | back octets pool out =>
    -- There are no more buffers than the limit and this one is out, so there is room on the shelf for it.
    have hpos : 0 < l.pool.outstanding := by omega
    have hidle := Pool.idle_release (p := l.pool) (by omega) octets
    have houtstanding : (l.pool.release octets).outstanding = l.pool.outstanding - 1 := rfl
    have hback : [Fate.back].count .back = 1 := rfl
    have hlent : [Fate.back].count .lent = 0 := rfl
    have hlost : [Fate.back].count .lost = 0 := rfl
    rw [pool]
    exact ⟨rfl, by omega, by omega, by omega, by omega⟩
  | lost pool out =>
    have hlost : [Fate.lost].count .lost = 1 := rfl
    rw [pool]
    exact ⟨rfl, rfl, by omega, (max_eq_right (Nat.le_add_left _ _)).symm, by omega⟩

/-- What the books of a pool say after a run. -/
structure Balanced (start : Ledger) (deeds : List Deed) : Prop where
  limit : (start.after deeds).pool.limit = start.pool.limit
  /-- What has been lent and has not come back is out. -/
  lent : (start.after deeds).pool.outstanding + (start.fates deeds).count .back = (start.fates deeds).count .lent
  /-- What is out is held by a loan or has been lost. -/
  held : (start.after deeds).pool.outstanding = (start.after deeds).out + (start.fates deeds).count .lost
  /-- As many buffers exist as were ever out at once. -/
  peak : IsGreatest (Set.range fun k => (start.after (deeds.take k)).pool.outstanding)
    ((start.after deeds).pool.idle + (start.after deeds).pool.outstanding)
  room : (start.after deeds).pool.idle + (start.after deeds).pool.outstanding ≤ start.pool.limit

/-- **One deed** keeps the books balanced. -/
theorem Balanced.next {start : Ledger} {deeds : List Deed} (h : Balanced start deeds) (d : Deed) :
    Balanced start (deeds ++ [d]) := by
  have hroom := h.room
  rw [← h.limit] at hroom
  have hnumbers := ((start.after deeds).step d).effect.numbers (h.held ▸ Nat.le_add_right _ _) hroom
  rw [← after_append_singleton] at hnumbers
  obtain ⟨hlimit, hlent, hheld, hpeak, hbound⟩ := hnumbers
  have hgreatest := h.peak.insert (start.after (deeds ++ [d])).pool.outstanding
  rw [← hpeak] at hgreatest
  have hfates (f : Fate) : (start.fates (deeds ++ [d])).count f =
      (start.fates deeds).count f + [(start.after deeds).fate d].count f := by
    rw [fates_append_singleton, List.count_append]
  have hlentBefore := h.lent
  have hheldBefore := h.held
  refine ⟨hlimit.trans h.limit, ?_, ?_, ?_, ?_⟩
  · rw [hfates, hfates]
    omega
  · rw [hfates]
    omega
  · rw [range_take_append_singleton fun moves => (start.after moves).pool.outstanding]
    exact hgreatest
  · rw [h.limit] at hbound
    rw [hpeak]
    exact max_le hbound h.room

/-- **Over a whole run** the books of a pool that begins empty stay balanced. -/
theorem balanced_after (limit : Nat) (deeds : List Deed) : Balanced (ofLimit limit) deeds := by
  induction deeds using List.reverseRecOn with
  | nil =>
    have hpeak : IsGreatest (Set.range fun k => ((ofLimit limit).after ([].take k)).pool.outstanding) 0 := by
      simp only [List.take_nil, Set.range_const]
      exact isGreatest_singleton
    exact ⟨rfl, rfl, rfl, hpeak, Nat.zero_le limit⟩
  | append_singleton deeds d ih => exact ih.next d

end Ledger
end VideoTransport
