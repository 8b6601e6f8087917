import VideoTransport.Outbound.WordPacketizer
import VideoTransport.Proofs.Division
/-!
# WordSizes — sizes that do not go round

Header, fragment header and overhead together are a word or they are not.  If they are, no size ever goes round, and a
packetizer that keeps its sizes in words does what one does that reckons with numbers, until memory ends
(`WordPacketizer.pull_natural`).  If they are not, the check for room lets settings through that leave none.  So the
bounds on packets and pieces hold for just the overheads of the first kind (`WordPacketizer.keeps_to_mtu_iff`,
`WordPacketizer.packets_carry_iff`).
-/
namespace VideoTransport

open Serial (nth)

/-- Header, fragment header and overhead together are a word. -/
def Cipher.FitsWord (c : Cipher) : Prop := 14 + c.overhead < UInt64.size

theorem Cipher.toNat_overheadWord {c : Cipher} (h : c.overhead < UInt64.size) :
    c.overheadWord.toNat = c.overhead := UInt64.toNat_ofNat_of_lt h

theorem Cipher.FitsWord.toNat {c : Cipher} (h : c.FitsWord) : c.overheadWord.toNat = c.overhead :=
  toNat_overheadWord (Nat.lt_of_le_of_lt (Nat.le_add_left _ 14) h)

namespace WordPacketizer

open Packetizer (Cursor)

variable {p : WordPacketizer}

/-! ## Reckoning with numbers -/

/-- The check for room means what it says. -/
theorem room_natural (p : WordPacketizer) (h : p.cipher.FitsWord) :
    Rtp.headerLength + Fragment.headerLength + p.cipher.overhead < p.mtu.toNat := by
  have hroom := UInt64.lt_iff_toNat_lt.1 p.room
  have hoverhead := h.toNat
  unfold Cipher.FitsWord UInt64.size at h
  simp only [UInt64.toNat_add, toNat_headerLength, toNat_fragmentLength] at hroom
  rw [Rtp.headerLength, Fragment.headerLength]
  omega

/-- The packetizer that reckons with numbers. -/
def natural (p : WordPacketizer) (h : p.cipher.FitsWord) : Packetizer where
  payloadType := p.payloadType
  ssrc := p.ssrc
  mtu := p.mtu.toNat
  cipher := p.cipher
  counter := p.counter
  sequenceSet := p.sets.sequence
  pictureSet := p.sets.picture
  room := p.room_natural h

theorem budget_natural (h : p.cipher.FitsWord) : (p.natural h).budget = p.budget := by
  have hroom := p.room_natural h
  have hmtu := p.mtu.toNat_lt
  have hoverhead := h.toNat
  simp only [Rtp.headerLength, Fragment.headerLength] at hroom
  unfold Packetizer.budget budget
  simp only [natural, UInt64.toNat_sub, toNat_headerLength, toNat_fragmentLength, hoverhead, Budget.mk.injEq]
  rw [Rtp.headerLength, Fragment.headerLength]
  omega

/-- No packet is planned that is longer than allowed. -/
theorem size_draft (h : p.cipher.FitsWord) {c c' : Cursor} {d : Draft} (hs : c.step p.budget = some (d, c')) :
    12 + d.payload.length + p.cipher.overhead ≤ p.mtu.toNat := by
  obtain ⟨hwhole, -, -⟩ := (p.natural h).budget_sizes
  have hdraft := (p.natural h).length_draft (budget_natural h ▸ hs)
  have hsum : 12 + p.cipher.overhead + (p.natural h).budget.whole = p.mtu.toNat := hwhole
  omega

/-- **A packet that memory has room for** is made as if sizes were numbers. -/
theorem emit_natural (h : p.cipher.FitsWord) {c c' : Cursor} {d : Draft} (hs : c.step p.budget = some (d, c'))
    (timestamp : UInt32) :
    p.emit timestamp d =
      if Bytes.longest < 12 + d.payload.length + p.cipher.overhead then none
      else some (((p.natural h).emit timestamp d).1, p.startAt (p.nextSequence + 1)) := by
  have hsize := size_draft h hs
  have hmtu := p.mtu.toNat_lt
  have hlimit : (p.limit d).toNat = d.payload.length + p.cipher.overhead := by
    rw [limit, UInt64.toNat_add, UInt64.toNat_ofNat', h.toNat]
    omega
  have hrequest : (p.request d).toNat = 12 + d.payload.length + p.cipher.overhead := by
    rw [request, UInt64.toNat_add, UInt64.toNat_add, toNat_headerLength, UInt64.toNat_ofNat', h.toNat]
    omega
  unfold emit
  dsimp only
  rw [hlimit, hrequest]
  rfl

theorem next_of_none {c : Cursor} (hs : c.step p.budget = none) : p.next c = some (none, p, c) := by
  rw [next]
  split
  · rfl
  · rename_i hs'
    rw [hs] at hs'
    cases hs'

theorem next_of_some {c c' : Cursor} {d : Draft} (hs : c.step p.budget = some (d, c')) :
    p.next c = match p.emit c.timestamp d with
      | none => none
      | some (some packet, p') => some (some packet, p', c')
      | some (none, p') => p'.next c' := by
  rw [next]
  split
  · rename_i hs'
    rw [hs] at hs'
    cases hs'
  · rename_i hs'
    rw [hs] at hs'
    cases hs'
    rfl

/-- The search for a packet that ends ends as if sizes were numbers. -/
theorem next_natural {p : WordPacketizer} (h : p.cipher.FitsWord) {c : Cursor} {found : Option Bytes}
    {p' : WordPacketizer} {c' : Cursor} (hnext : p.next c = some (found, p', c')) :
    ∃ h', (p.natural h).next c = (found, p'.natural h', c') := by
  cases hs : c.step p.budget with
  | none =>
    rw [next_of_none hs] at hnext
    cases hnext
    exact ⟨h, Packetizer.next_of_none (budget_natural h ▸ hs)⟩
  | some stepped =>
    obtain ⟨d, c''⟩ := stepped
    have hweight := Cursor.step_weight p.budget_piece_pos hs
    rw [next_of_some hs] at hnext
    rw [Packetizer.next_of_some (budget_natural h ▸ hs)]
    have hemit := emit_natural h hs c.timestamp
    split at hemit
    · rw [hemit] at hnext
      cases hnext
    · rw [hemit] at hnext
      cases he : ((p.natural h).emit c.timestamp d).1 with
      | some packet =>
        rw [he] at hnext
        cases hnext
        exact ⟨h, rfl⟩
      | none =>
        rw [he] at hnext
        exact next_natural (p := p.startAt (p.nextSequence + 1)) h hnext
termination_by c.weight

/-- **The packets that come out** are the first that do if sizes are numbers, and all of them unless memory ends. -/
theorem pull_natural : ∀ (k : Nat) {p : WordPacketizer} (h : p.cipher.FitsWord) (c : Cursor),
    (p.pull k c).1 <+: ((p.natural h).pull k c).1 ∧
      ∀ q c', (p.pull k c).2 = some (q, c') → ∃ h', (p.natural h).pull k c = ((p.pull k c).1, q.natural h', c')
  | 0, p, h, c => by
    refine ⟨List.prefix_refl _, fun q c' hleft => ?_⟩
    cases hleft
    exact ⟨h, rfl⟩
  | k + 1, p, h, c => by
    cases hnext : p.next c with
    | none =>
      rw [pull, hnext]
      exact ⟨List.nil_prefix, fun q c' hleft => by cases hleft⟩
    | some searched =>
      obtain ⟨found, p', c'⟩ := searched
      obtain ⟨h', hnatural⟩ := next_natural h hnext
      rw [pull, hnext, Packetizer.pull, hnatural]
      dsimp only
      cases found with
      | none =>
        refine ⟨List.prefix_refl _, fun q c'' hleft => ?_⟩
        cases hleft
        exact ⟨h', rfl⟩
      | some packet =>
        obtain ⟨hfirst, hall⟩ := pull_natural k h' c'
        refine ⟨(List.prefix_cons_inj packet).2 hfirst, fun q c'' hleft => ?_⟩
        obtain ⟨h'', hpull⟩ := hall q c'' hleft
        exact ⟨h'', by dsimp only; rw [hpull]⟩

/-- The search for a packet ends if packets of the size allowed can be. -/
theorem next_made {p : WordPacketizer} (h : p.cipher.FitsWord) (hmtu : p.mtu.toNat ≤ Bytes.longest) (c : Cursor) :
    ∃ found start c', p.next c = some (found, p.startAt start, c') := by
  cases hs : c.step p.budget with
  | none => exact ⟨none, p.nextSequence, c, next_of_none hs⟩
  | some stepped =>
    obtain ⟨d, c'⟩ := stepped
    have hweight := Cursor.step_weight p.budget_piece_pos hs
    have hemit := emit_natural h hs c.timestamp
    rw [if_neg (Nat.not_lt.2 (Nat.le_trans (size_draft h hs) hmtu))] at hemit
    rw [next_of_some hs, hemit]
    cases ((p.natural h).emit c.timestamp d).1 with
    | some packet => exact ⟨some packet, _, c', rfl⟩
    | none =>
      obtain ⟨found, start, c'', hnext⟩ := next_made (p := p.startAt (p.nextSequence + 1)) h hmtu c'
      exact ⟨found, start, c'', hnext⟩
termination_by c.weight

theorem pull_made : ∀ (k : Nat) {p : WordPacketizer}, p.cipher.FitsWord → p.mtu.toNat ≤ Bytes.longest →
    ∀ c : Cursor, (p.pull k c).2.isSome = true
  | 0, _, _, _, _ => rfl
  | k + 1, p, h, hmtu, c => by
    obtain ⟨found, start, c', hnext⟩ := next_made h hmtu c
    rw [pull, hnext]
    cases found with
    | none => rfl
    | some packet => exact pull_made k (p := p.startAt start) h hmtu c'

theorem foldl_capture_natural : ∀ (nals : List Bytes) {p : WordPacketizer} (h : p.cipher.FitsWord),
    nals.foldl Packetizer.capture (p.natural h) =
      ({ p with sets := nals.foldl ParameterSets.capture p.sets } : WordPacketizer).natural h
  | [], _, _ => rfl
  | nal :: rest, p, h => foldl_capture_natural rest (p := { p with sets := p.sets.capture nal }) h

theorem begin_natural (h : p.cipher.FitsWord) (u : AccessUnit) :
    (p.natural h).begin u = ((p.begin u).1, (p.begin u).2.natural h) :=
  Prod.ext rfl (foldl_capture_natural (AnnexB.nalUnits u.bytes) h)

theorem packets_natural (h : p.cipher.FitsWord) (u : AccessUnit) :
    (p.packets u).1 <+: ((p.natural h).packets u).1 ∧
      ∀ q, (p.packets u).2 = some q → ((p.natural h).packets u).1 = (p.packets u).1 := by
  obtain ⟨hfirst, hall⟩ := pull_natural (p.begin u).1.weight (p := (p.begin u).2) h (p.begin u).1
  unfold Packetizer.packets
  rw [begin_natural h u]
  refine ⟨hfirst, fun q hq => ?_⟩
  obtain ⟨⟨q', c'⟩, hleft, -⟩ := Option.map_eq_some_iff.1 hq
  obtain ⟨h', hpull⟩ := hall q' c' hleft
  exact congrArg Prod.fst hpull

/-! ## Sizes that go round -/

/-- A cursor before a NAL unit of two octets, and nothing behind it. -/
def brief (timestamp : UInt32) : Cursor := { timestamp, nals := [[0x41, 1]] }

/-- Two octets travel whole or in one fragment, for a piece is never empty. -/
theorem step_brief (p : WordPacketizer) (timestamp : UInt32) :
    ∃ d, (2 ≤ d.payload.length ∧ d.payload.length ≤ 3) ∧
      (brief timestamp).step p.budget = some (d, { timestamp, nals := [] }) := by
  by_cases hl : 2 ≤ p.budget.whole
  · exact ⟨⟨true, [0x41, 1]⟩, by decide, if_pos hl⟩
  · have hleft : ([1] : Bytes).drop p.budget.piece = [] := List.drop_eq_nil_iff.2 p.budget_piece_pos
    have htake : (([1] : Bytes).take p.budget.piece).length ≤ 1 := List.length_take_le' _ _
    let piece : Fragment := ⟨0x41, Nal.typeOf 0x41, true, true, ([1] : Bytes).take p.budget.piece⟩
    refine ⟨⟨true, piece.write⟩, ⟨Nat.le_add_left 2 _, Nat.add_le_add_right htake 2⟩, (if_neg hl).trans ?_⟩
    exact congrArg some (Packetizer.Cursor.stepPiece_last _ _ _ hleft)

/-- When sizes go round, the memory asked for goes round too, and is little for a short payload. -/
theorem request_brief (hword : p.cipher.overhead < UInt64.size) (h : ¬p.cipher.FitsWord) {d : Draft}
    (hd : 2 ≤ d.payload.length ∧ d.payload.length ≤ 3) : (p.request d).toNat ≤ Bytes.longest := by
  unfold Cipher.FitsWord at h
  unfold UInt64.size at h hword
  have hlength : (UInt64.ofNat d.payload.length).toNat = d.payload.length :=
    UInt64.toNat_ofNat_of_lt (Nat.lt_of_le_of_lt hd.2 (by decide))
  rw [request, UInt64.toNat_add, UInt64.toNat_add, toNat_headerLength, hlength, Cipher.toNat_overheadWord hword,
    Bytes.longest]
  omega

theorem pull_of_step_none (n : Nat) {c : Cursor} (hs : c.step p.budget = none) : p.pull n c = ([], some (p, c)) := by
  cases n with
  | zero => rfl
  | succ n => rw [pull, next_of_none hs]

theorem emit_of_request {d : Draft} (h : (p.request d).toNat ≤ Bytes.longest) (timestamp : UInt32) :
    ∃ made, p.emit timestamp d = some (made, p.startAt (p.nextSequence + 1)) := by
  unfold emit
  dsimp only
  rw [if_neg (Nat.not_lt.2 h)]
  exact ⟨_, rfl⟩

/-- A unit with a NAL unit of two octets is turned into packets to the end, even when sizes go round. -/
theorem packets_brief (hword : p.cipher.overhead < UInt64.size) (h : ¬p.cipher.FitsWord) {u : AccessUnit}
    (hu : AnnexB.nalUnits u.bytes = [[0x41, 1]]) : ∃ q, (p.packets u).2 = some q := by
  let begun := (p.begin u).2
  have hcursor : (p.begin u).1 = brief u.timestamp :=
    congrArg (fun nals => ({ timestamp := u.timestamp, nals } : Cursor)) hu
  obtain ⟨d, hd, hstep⟩ := begun.step_brief u.timestamp
  obtain ⟨made, hemit⟩ := emit_of_request (p := begun) (request_brief hword h hd) u.timestamp
  have hnext := next_of_some hstep
  have hend : ∀ q : WordPacketizer, Cursor.step q.budget { timestamp := u.timestamp, nals := [] } = none := fun _ => rfl
  rw [show (brief u.timestamp).timestamp = u.timestamp from rfl, hemit] at hnext
  have hpull : ∃ q c, (begun.pull (brief u.timestamp).weight (brief u.timestamp)).2 = some (q, c) := by
    rw [show (brief u.timestamp).weight = 3 + 1 from rfl, pull, hnext]
    cases made with
    | none =>
      dsimp only
      rw [next_of_none (hend _)]
      exact ⟨_, _, rfl⟩
    | some packet =>
      dsimp only
      rw [pull_of_step_none 3 (hend _)]
      exact ⟨_, _, rfl⟩
  obtain ⟨q, c, hleft⟩ := hpull
  refine ⟨q, ?_⟩
  show ((begun.pull (p.begin u).1.weight (p.begin u).1).2).map Prod.fst = some q
  rw [hcursor, hleft]
  rfl

/-! ## What holds just if sizes do not go round -/

/-- **Packets keep to the size limit, and sizes never go round,** for just the overheads that leave room in a word.
Take any packetizer, so one whose settings have passed the check for room, and a cipher that may do anything to
payloads.  If header, fragment header and overhead together are a word, then they are less than a packet may hold, and
what remains are the sizes that it reckons with.  Every packet that comes out, from wherever a cursor stands, is no
longer than allowed.  And while it turns a unit into packets, wherever the search for a packet stands, a NAL unit that
does not travel whole has a body that reaches beyond the offset, so that the next piece holds something and ends within
the body.  If they are not, this cannot be, for any settings that pass. -/
theorem keeps_to_mtu_iff (p : WordPacketizer) :
    (∀ u : AccessUnit,
      (12 + p.cipher.overhead + p.budget.whole = p.mtu.toNat ∧ 14 + p.cipher.overhead + p.budget.piece = p.mtu.toNat ∧
        1 ≤ p.budget.piece) ∧
      (∀ packet ∈ (p.packets u).1, packet.length ≤ p.mtu.toNat) ∧
      (∀ k c, ∀ packet ∈ (p.pull k c).1, packet.length ≤ p.mtu.toNat) ∧
      (∀ k q c, ((p.begin u).2.pull k (p.begin u).1).2 = some (q, c) → Cursor.Reached p.budget (p.begin u).1 c) ∧
      ∀ c, Cursor.Reached p.budget (p.begin u).1 c → ∀ nal later, c.nals = nal :: later →
        p.budget.whole < nal.length →
        c.offset < nal.tail.length ∧ 1 ≤ c.pieceLength p.budget nal.tail ∧
        c.offset + c.pieceLength p.budget nal.tail ≤ nal.tail.length ∧
        ∀ d c', c.step p.budget = some (d, c') →
          d.payload.drop 2 = (nal.tail.drop c.offset).take (c.pieceLength p.budget nal.tail)) ↔
      14 + p.cipher.overhead < UInt64.size := by
  constructor
  · intro hkeeps
    obtain ⟨⟨-, hpiece, -⟩, -⟩ := hkeeps (.assembled 0 [])
    have hmtu : p.mtu.toNat < UInt64.size := p.mtu.toNat_lt
    omega
  · intro h u
    obtain ⟨hsizes, hpackets, hpulled, hreached, hcut⟩ := (p.natural h).keeps_to_mtu u
    rw [budget_natural h, begin_natural h u] at hreached hcut
    rw [budget_natural h] at hsizes
    refine ⟨hsizes, fun packet hpacket => ?_, fun k c packet hpacket => ?_, fun k q c hleft => ?_, hcut⟩
    · exact hpackets packet ((packets_natural h u).1.subset hpacket)
    · exact hpulled k c packet ((pull_natural k h c).1.subset hpacket)
    · obtain ⟨h', hpull⟩ := (pull_natural k (p := (p.begin u).2) h (p.begin u).1).2 q c hleft
      have hend := hreached k
      rw [hpull] at hend
      exact hend

/-- A packetizer with room for one octet in a fragment, and a cipher that appends all the three octets that it may. -/
def swelling : WordPacketizer where
  payloadType := 96
  ssrc := 1
  mtu := 18
  cipher :=
    { overhead := 3
      encrypt _ data := .ok (data ++ [0xee, 0xee, 0xee])
      decrypt _ data := .ok (data.take (data.length - 3)) }
  room := by decide

/-- Half of the body of a NAL unit has been sent. -/
theorem keeps_to_mtu_iff_swelling :
    let nal : Bytes := [0x65, 1, 2, 3, 4]
    let c : Cursor := { timestamp := 9, nals := [nal], rest := some [3, 4] }
    create 96 1 18 swelling.cipher = .ok swelling ∧
      Cursor.Reached swelling.budget (swelling.begin (.assembled 9 [nal])).1 c ∧
      swelling.budget.whole < nal.length ∧ c.offset < nal.tail.length ∧ 1 ≤ c.pieceLength swelling.budget nal.tail ∧
      c.offset + c.pieceLength swelling.budget nal.tail ≤ nal.tail.length ∧
      ∀ packet ∈ (swelling.packets (.assembled 9 [nal])).1, packet.length ≤ 18 := by
  intro nal c
  have hbegin : (swelling.begin (.assembled 9 [nal])).1 = { timestamp := 9, nals := [nal] } := by decide +kernel
  have hreached : Cursor.Reached swelling.budget (swelling.begin (.assembled 9 [nal])).1 c := by
    rw [hbegin]
    exact .step (.step .refl rfl) rfl
  obtain ⟨-, hpackets, -, -, hcut⟩ := (keeps_to_mtu_iff swelling).2 (by decide) (.assembled 9 [nal])
  obtain ⟨hlt, hpos, hle, -⟩ := hcut c hreached nal [] rfl (by decide)
  exact ⟨rfl, hreached, by decide, hlt, hpos, hle, hpackets⟩

/-- A cipher that asks for so much that, with both headers, just 2^64 octets are to be exceeded. -/
def greedy : Cipher where
  overhead := 18446744073709551602
  encrypt _ data := .ok data
  decrypt _ data := .ok data

/-- Fifteen octets leave although one is the limit. -/
theorem exceeds_mtu_greedy :
    let p : WordPacketizer := { payloadType := 96, ssrc := 1, mtu := 1, cipher := greedy, room := by decide }
    create 96 1 1 greedy = .ok p ∧ p.budget = ⟨3, 1⟩ ∧
      (p.packets (.assembled 0 [[0x41, 0x9a, 2]])).1.map List.length = [15] := by
  intro p
  exact ⟨rfl, by decide +kernel, by decide +kernel⟩

/-- A piece that holds something cannot be cut when there is no room for one octet. -/
theorem not_isDivision_zero {header : UInt8} {body : Bytes} {payloads : List Bytes} :
    ¬Plan.IsDivision 0 header body payloads := by
  intro h
  obtain ⟨payload, hpayload⟩ : ∃ payload, payloads[0]? = some payload :=
    ⟨_, List.getElem?_eq_getElem (Nat.lt_of_lt_of_le Nat.two_pos h.two_le_length)⟩
  obtain ⟨_, piece, -, -, hne, hle, -⟩ := h.octets 0 payload hpayload
  exact hne (List.length_eq_zero_iff.1 (Nat.le_zero.1 hle))

/-- **Packets carry NAL units as they should** for just the overheads that leave room in a word.  Take any packetizer,
so one whose settings have passed the check for room, and a cipher that never fails and keeps to its overhead.  Let
header, fragment header and overhead together be a word.  The packets of an access unit are all made if packets of the
size allowed can be.  When all are made, their payloads before encryption fall into groups, one for each NAL unit in
their order.  The group of a NAL unit with no more octets than a header and the cipher leave is this NAL unit alone.
That of a longer one are at least two fragments, which hold what `Plan.IsDivision` says, and all but the last a piece
of as many octets as the fragment header leaves.  Every payload is that of one packet, encrypted, and there are no
other packets.  If the three are not a word, this cannot be, for any settings that pass. -/
theorem packets_carry_iff (p : WordPacketizer) (hword : p.cipher.overhead < UInt64.size)
    (hc : p.cipher.IsDependable) :
    (∀ u,
      (p.mtu.toNat ≤ Bytes.longest → (p.packets u).2.isSome = true) ∧
      ∀ q, (p.packets u).2 = some q → ∃ groups : List (List Bytes),
        List.Forall₂
          (Plan.Carries (p.mtu.toNat - 12 - p.cipher.overhead) (p.mtu.toNat - 14 - p.cipher.overhead))
          (AnnexB.nalUnits u.bytes) groups ∧
        (p.packets u).1.length = groups.flatten.length ∧
        ∀ i payload, groups.flatten[i]? = some payload →
          let header : Rtp.Header :=
            ⟨decide (i + 1 = groups.flatten.length), p.payloadType, nth p.nextSequence i, u.timestamp, p.ssrc⟩
          ∃ cover, p.cipher.encrypt header.packetMeta payload = .ok cover ∧
            (p.packets u).1[i]? = some (header.write ++ cover)) ↔
      14 + p.cipher.overhead < UInt64.size := by
  constructor
  · intro hcarries
    by_contra h
    have hnals : AnnexB.nalUnits (AccessUnit.assembled 0 [[0x41, 1]]).bytes = [[0x41, 1]] := by decide +kernel
    obtain ⟨q, hq⟩ := packets_brief hword h hnals
    obtain ⟨groups, hgroups, -⟩ := (hcarries _).2 q hq
    rw [hnals] at hgroups
    obtain _ | ⟨hcarry, -⟩ := hgroups
    have hmtu : p.mtu.toNat < UInt64.size := p.mtu.toNat_lt
    have hlong : ¬([0x41, 1] : Bytes).length ≤ p.mtu.toNat - 12 - p.cipher.overhead := by
      show ¬2 ≤ _
      omega
    have hnone : p.mtu.toNat - 14 - p.cipher.overhead = 0 := by omega
    unfold Plan.Carries at hcarry
    rw [if_neg hlong, hnone] at hcarry
    obtain ⟨header, body, -, hdivision⟩ := hcarry
    exact not_isDivision_zero hdivision
  · intro h u
    refine ⟨fun hmtu => ?_, fun q hq => ?_⟩
    · exact Option.isSome_map.trans (pull_made _ (p := (p.begin u).2) h hmtu (p.begin u).1)
    · rw [← (packets_natural h u).2 q hq]
      exact (p.natural h).packets_carry hc u

/-- Three octets travel whole and four do not, a piece being one octet: the second NAL unit takes three fragments. -/
theorem packets_carry_iff_swelling :
    let nals : List Bytes := [[0x67, 1, 2], [0x65, 1, 2, 3]]
    swelling.cipher.overhead < UInt64.size ∧ swelling.cipher.IsDependable ∧
      (swelling.packets (.assembled 9 nals)).1.map (·.drop 12) =
        [[0x67, 1, 2, 0xee, 0xee, 0xee], [0x7c, 0x85, 1, 0xee, 0xee, 0xee], [0x7c, 0x05, 2, 0xee, 0xee, 0xee],
          [0x7c, 0x45, 3, 0xee, 0xee, 0xee]] ∧
      ∃ groups, List.Forall₂ (Plan.Carries 3 1) nals groups ∧ groups.flatten.length = 4 := by
  intro nals
  have hword : swelling.cipher.overhead < UInt64.size := by decide
  have hc : swelling.cipher.IsDependable := fun _ _ => ⟨_, rfl, Nat.le_of_eq List.length_append⟩
  have hpackets : (swelling.packets (.assembled 9 nals)).1.map (·.drop 12) =
      [[0x67, 1, 2, 0xee, 0xee, 0xee], [0x7c, 0x85, 1, 0xee, 0xee, 0xee], [0x7c, 0x05, 2, 0xee, 0xee, 0xee],
        [0x7c, 0x45, 3, 0xee, 0xee, 0xee]] := by decide +kernel
  have hnals : AnnexB.nalUnits (AccessUnit.assembled 9 nals).bytes = nals := by decide +kernel
  obtain ⟨hmade, hcarry⟩ := (packets_carry_iff swelling hword hc).2 (by decide) (.assembled 9 nals)
  obtain ⟨q, hq⟩ := Option.isSome_iff_exists.1 (hmade (by decide))
  obtain ⟨groups, hgroups, hlength, -⟩ := hcarry q hq
  have hcount := congrArg List.length hpackets
  rw [List.length_map] at hcount
  exact ⟨hword, hc, hpackets, groups, hnals ▸ hgroups, hlength.symm.trans hcount⟩

/-- Two octets leave in one fragment that is both the first and the last. -/
theorem cuts_once_greedy :
    let p : WordPacketizer :=
      { payloadType := 96, ssrc := 1, mtu := 18446744073709551615, cipher := greedy, room := by decide }
    create 96 1 18446744073709551615 greedy = .ok p ∧ greedy.IsDependable ∧ p.budget.whole = 1 ∧
      (p.packets (.assembled 0 [[0x41, 1]])).1.map (·.drop 12) = [[0x5c, 0xc1, 1]] := by
  intro p
  exact ⟨rfl, fun _ data => ⟨data, rfl, Nat.le_add_right _ _⟩, by decide +kernel, by decide +kernel⟩

end WordPacketizer
end VideoTransport
