import VideoTransport.Proofs.Compound
import VideoTransport.Proofs.Datagram
import VideoTransport.Proofs.Offsets
/-!
# Extent — how far the first report of a datagram reaches

The header of a report announces its type, its number of blocks and its length.  A datagram is read exactly if it is as
long as announced and the announced length has room for what a report of that type and with so many blocks holds
(`Readable`); what is read then stands within the announced length (`Report.StandsIn`), and nothing behind it matters
(`Report.parse_extent`).  The same can be read by offsets, and no access ever reaches outside of the datagram, nor
behind the header outside of the first report (`Report.scan_eq`).
-/
namespace VideoTransport
namespace Rtcp

/-! ## What the header announces -/

def version (d : Bytes) : Nat := (d.getD 0 0).toNat / 64

/-- The number of blocks. -/
def blocks (d : Bytes) : Nat := (d.getD 0 0).toNat % 32

def kind (d : Bytes) : UInt8 := d.getD 1 0

/-- The length of the report in octets; the length word counts the words after the first. -/
def extent (d : Bytes) : Nat := 4 * ((d.getD 2 0).toNat * 256 + (d.getD 3 0).toNat + 1)

/-- The octets of the first report. -/
def front (d : Bytes) : Bytes := d.take (extent d)

/-- What a report needs to be read: a header, and room for what the header announces. -/
structure Readable (d : Bytes) : Prop where
  header : 8 ≤ d.length
  version : version d = 2
  whole : extent d ≤ d.length
  room : kind d = 200 ∧ 28 + 24 * blocks d ≤ extent d ∨ kind d = 201 ∧ 8 + 24 * blocks d ≤ extent d

/-- The report is of the announced type, has its block if any are announced, and its octets behind the header are those
of the first report. -/
def Report.StandsIn (d : Bytes) : Report → Prop
  | .sender r => kind d = senderReportType ∧ r.write.drop 4 <+: (front d).drop 4
  | .receiver r => kind d = receiverReportType ∧ (r.block.isSome ↔ 0 < blocks d) ∧ r.write.drop 4 <+: (front d).drop 4

theorem version_eq_iff (d : Bytes) : version d = 2 ↔ d.getD 0 0 >>> 6 = 2 := by
  have hall : ∀ i : Fin 256, UInt8.ofFin i >>> 6 = 2 ↔ i.val / 64 = 2 := by decide +kernel
  exact (hall (d.getD 0 0).toFin).symm

theorem blocks_eq (d : Bytes) : (d.getD 0 0 &&& 0x1f).toNat = blocks d := by
  have hmask : (0x1f : UInt8).toNat = 2 ^ 5 - 1 := rfl
  rw [UInt8.toNat_and, hmask, Nat.and_two_pow_sub_one_eq_mod]
  rfl

theorem extent_eq (d : Bytes) : 4 * ((Bytes.word16 (d.getD 2 0) (d.getD 3 0)).toNat + 1) = extent d := by
  have hhigh := (d.getD 2 0).toNat_lt
  have hlow := (d.getD 3 0).toNat_lt
  rw [Bytes.word16, UInt16.toNat_ofNat', extent]
  omega

theorem extent_pos (d : Bytes) : 4 ≤ extent d := by
  unfold extent
  omega

/-! ## Words -/

/-- As many words as there is room for are read, and they are what stands there. -/
theorem takeWords_of_le {n : Nat} {data : Bytes} (h : 4 * n ≤ data.length) :
    ∃ words : List UInt32, words.length = n ∧ words.flatMap Bytes.ofWord32 = data.take (4 * n) ∧
      takeWords n data = some (words, data.drop (4 * n)) := by
  obtain ⟨words, hlength, hwords⟩ := Bytes.exists_words n (data.take (4 * n)) (List.length_take_of_le h)
  refine ⟨words, hlength, hwords, ?_⟩
  have htake := takeWords_flatMap words (data.drop (4 * n))
  rwa [hwords, List.take_append_drop, hlength] at htake

theorem exists_six {words : List UInt32} (h : words.length = 6) :
    ∃ w0 w1 w2 w3 w4 w5, words = [w0, w1, w2, w3, w4, w5] := by
  match words, h with
  | [w0, w1, w2, w3, w4, w5], _ => exact ⟨w0, w1, w2, w3, w4, w5, rfl⟩

/-- A number that twenty-four bits have written is written so again. -/
theorem lostField_lostOfField {field : Nat} (h : field < 0x1000000) : lostField (lostOfField field) = field := by
  unfold lostField lostOfField clampLost
  split <;> omega

/-! ## Bodies -/

theorem exists_octets {d : Bytes} (h : 4 ≤ d.length) : ∃ b0 b1 b2 b3 rest, d = b0 :: b1 :: b2 :: b3 :: rest := by
  match d, h with
  | b0 :: b1 :: b2 :: b3 :: rest, _ => exact ⟨b0, b1, b2, b3, rest, rfl⟩

theorem SenderReport.ofBody_of_le (body : Bytes) (h : 24 ≤ body.length) :
    ∃ r, SenderReport.ofBody body = some r ∧ r.write.drop 4 = body.take 24 := by
  obtain ⟨words, hlength, hwords, htake⟩ := takeWords_of_le (n := 6) h
  obtain ⟨w0, w1, w2, w3, w4, w5, rfl⟩ := exists_six hlength
  exact ⟨⟨w0, ⟨w1, w2⟩, w3, w4, w5⟩, by rw [SenderReport.ofBody, htake], hwords⟩

theorem ReportBlock.ofBody_of_le (body : Bytes) (h : 24 ≤ body.length) :
    ∃ b, ReportBlock.ofBody body = some b ∧ b.write = body.take 24 := by
  obtain ⟨words, hlength, hwords, htake⟩ := takeWords_of_le (n := 6) h
  obtain ⟨w0, loss, w2, w3, w4, w5, rfl⟩ := exists_six hlength
  refine ⟨⟨w0, UInt8.ofNat (loss.toNat / 0x1000000), lostOfField (loss.toNat % 0x1000000), w2, w3, w4, w5⟩,
    by rw [ReportBlock.ofBody, htake], ?_⟩
  have hloss : loss.toNat < 2 ^ 32 := loss.toNat_lt
  have hword : UInt32.ofNat ((UInt8.ofNat (loss.toNat / 0x1000000)).toNat * 0x1000000 +
      lostField (lostOfField (loss.toNat % 0x1000000))) = loss := by
    apply UInt32.toNat_inj.mp
    rw [lostField_lostOfField (Nat.mod_lt _ (by decide)), UInt32.toNat_ofNat', UInt8.toNat_ofNat']
    omega
  rw [ReportBlock.write, hword, ← hwords]
  rfl

theorem ReceiverReport.drop_write (reporter : UInt32) (b : ReportBlock) :
    (ReceiverReport.mk reporter (some b)).write.drop 4 = Bytes.ofWord32 reporter ++ b.write := by
  have hwrite : (ReceiverReport.mk reporter (some b)).write =
      writeHeader 1 receiverReportType 32 ++ Bytes.ofWord32 reporter ++ b.write := rfl
  rw [hwrite, List.append_assoc]
  exact List.drop_left' rfl

theorem ReceiverReport.ofBody_of_le (count : Nat) (body : Bytes) (h : 4 ≤ body.length)
    (hcount : 0 < count → 28 ≤ body.length) :
    ∃ r, ReceiverReport.ofBody count body = some r ∧ (r.block.isSome ↔ 0 < count) ∧ r.write.drop 4 <+: body := by
  obtain ⟨a, b, c, e, rest, rfl⟩ := exists_octets h
  have hreporter := Bytes.ofWord32_word32 a b c e
  rcases Nat.eq_zero_or_pos count with rfl | hpos
  · refine ⟨⟨Bytes.word32 a b c e, none⟩, rfl, by simp, ?_⟩
    show Bytes.ofWord32 (Bytes.word32 a b c e) <+: _
    rw [hreporter]
    exact List.prefix_append [a, b, c, e] rest
  · have hroom := hcount hpos
    simp only [List.length_cons] at hroom
    obtain ⟨block, hread, hwrite⟩ := ReportBlock.ofBody_of_le rest (by omega)
    refine ⟨⟨Bytes.word32 a b c e, some block⟩, ?_, by simp [hpos], ?_⟩
    · simp [ReceiverReport.ofBody, takeWord, Nat.ne_of_gt hpos, hread]
    · rw [drop_write, hreporter, hwrite]
      exact (List.prefix_append_right_inj [a, b, c, e]).2 (List.take_prefix 24 rest)

/-! ## Reading -/

theorem length_front {d : Bytes} (h : extent d ≤ d.length) : ((front d).drop 4).length + 4 = extent d := by
  have := extent_pos d
  rw [front, List.length_drop, List.length_take_of_le h]
  omega

/-- Behind the header only the first report is looked at. -/
theorem Report.parse_of_header {d : Bytes} (h : 8 ≤ d.length) :
    Report.parse d =
      if version d ≠ 2 then .error .badVersion
      else if d.length < extent d then .error .truncated
      else Report.ofBody (blocks d) (kind d) ((front d).drop 4) := by
  have hversion := version_eq_iff d
  have hblocks := blocks_eq d
  have hextent := extent_eq d
  obtain ⟨b0, b1, b2, b3, rest, rfl⟩ := exists_octets (d := d) (by omega)
  simp only [List.getD_cons_zero, List.getD_cons_succ] at hversion hblocks hextent
  have hfront : (front (b0 :: b1 :: b2 :: b3 :: rest)).drop 4 =
      rest.take (extent (b0 :: b1 :: b2 :: b3 :: rest) - 4) := by rw [front, List.drop_take]; rfl
  unfold Report.parse
  rw [if_neg (Nat.not_lt.2 h)]
  simp only [hblocks, hextent, hfront, ne_eq, hversion]
  split
  · rfl
  split
  · rfl
  rename_i hwhole
  have hlength := length_front (Nat.not_lt.1 hwhole)
  rw [hfront] at hlength
  rw [Report.ofBody, hlength]
  rfl

/-- **A report that has room for what it announces is read**, from its own octets. -/
theorem Readable.parse {d : Bytes} (h : Readable d) : ∃ r, Report.parse d = .ok r ∧ r.StandsIn d := by
  have hlength := length_front h.whole
  rw [Report.parse_of_header h.header, if_neg (not_not.2 h.version), if_neg (Nat.not_lt.2 h.whole), Report.ofBody,
    hlength]
  obtain ⟨hkind, hroom⟩ | ⟨hkind, hroom⟩ : kind d = senderReportType ∧ _ ∨ kind d = receiverReportType ∧ _ := h.room
  · obtain ⟨r, hread, hwrite⟩ := SenderReport.ofBody_of_le ((front d).drop 4) (by omega)
    rw [if_pos hkind, if_neg (Nat.not_lt.2 hroom), hread]
    exact ⟨.sender r, rfl, hkind, hwrite ▸ List.take_prefix 24 _⟩
  · obtain ⟨r, hread, hblock, hwrite⟩ :=
      ReceiverReport.ofBody_of_le (blocks d) ((front d).drop 4) (by omega) fun _ => by omega
    rw [if_neg (by rw [hkind]; decide), if_pos hkind, if_neg (Nat.not_lt.2 hroom), hread]
    exact ⟨.receiver r, rfl, hkind, hblock, hwrite⟩

theorem readable_of_parse {d : Bytes} {r : Report} (h : Report.parse d = .ok r) : Readable d := by
  have hheader : 8 ≤ d.length := by
    by_contra hshort
    unfold Report.parse at h
    rw [if_pos (Nat.not_le.1 hshort)] at h
    cases h
  rw [Report.parse_of_header hheader] at h
  split at h
  · cases h
  rename_i hversion
  split at h
  · cases h
  rename_i hwhole
  refine ⟨hheader, not_not.1 hversion, Nat.not_lt.1 hwhole, ?_⟩
  rw [Report.ofBody, length_front (Nat.not_lt.1 hwhole)] at h
  split at h
  · rename_i hkind
    split at h
    · cases h
    · rename_i hroom
      exact .inl ⟨hkind, Nat.not_lt.1 hroom⟩
  · split at h
    · rename_i hkind
      split at h
      · cases h
      · rename_i hroom
        exact .inr ⟨hkind, Nat.not_lt.1 hroom⟩
    · cases h

/-! ## Reading by offsets -/

open Access

/-- Read a sender report by offsets. -/
def SenderReport.scan (d : Bytes) : Access SenderReport := do
  return { ssrc := ← word d 4, time := ⟨← word d 8, ← word d 12⟩, rtpTimestamp := ← word d 16,
           packetCount := ← word d 20, octetCount := ← word d 24 }

/-- Read a block by offsets. -/
def ReportBlock.scan (d : Bytes) : Access ReportBlock := do
  let loss ← word d 4
  return { ssrc := ← word d 0, fractionLost := UInt8.ofNat (loss.toNat / 0x1000000),
           cumulativeLost := lostOfField (loss.toNat % 0x1000000), extendedHighest := ← word d 8, jitter := ← word d 12,
           lastReport := ← word d 16, delay := ← word d 20 }

/-- Read a receiver report with `count` blocks by offsets. -/
def ReceiverReport.scan (count : Nat) (d : Bytes) : Access ReceiverReport :=
  if 0 < count then do
    let block ← ReportBlock.scan (← stretch d 8 d.length)
    return { reporter := ← word d 4, block := some block }
  else return { reporter := ← word d 4, block := none }

/-- Read the first report of a datagram by offsets: four octets of its header, and then nothing but its own octets. -/
def Report.scan (d : Bytes) : Access Report :=
  if d.length < 8 then throw .truncated
  else do
    let b0 ← octet d 0
    if b0 >>> 6 ≠ 2 then throw .badVersion
    else do
      let count := (b0 &&& 0x1f).toNat
      let kind ← octet d 1
      let length := 4 * ((Bytes.word16 (← octet d 2) (← octet d 3)).toNat + 1)
      if d.length < length then throw .truncated
      else do
        let report ← stretch d 0 length
        if kind = senderReportType then
          if length < 28 + 24 * count then throw .badLength
          else return .sender (← SenderReport.scan report)
        else if kind = receiverReportType then
          if length < 8 + 24 * count then throw .badLength
          else return .receiver (← ReceiverReport.scan count report)
        else throw (.unsupportedType kind)

theorem word_of_takeWord {d rest : Bytes} {i : Nat} {w : UInt32} (h : takeWord (d.drop i) = some (w, rest)) :
    word d i = pure w ∧ rest = d.drop (i + 4) := by
  rw [← List.drop_drop]
  unfold takeWord at h
  split at h
  · rename_i a b c e _ hd
    cases h
    have hoctet (j : Nat) {o : UInt8} (ho : (d.drop i)[j]? = some o) : octet d (i + j) = pure o :=
      octet_of_some (by rw [← List.getElem?_drop, ho])
    refine ⟨?_, by rw [hd]; rfl⟩
    rw [word, show octet d i = pure a from hoctet 0 (by rw [hd]; rfl), hoctet 1 (o := b) (by rw [hd]; rfl),
      hoctet 2 (o := c) (by rw [hd]; rfl), hoctet 3 (o := e) (by rw [hd]; rfl)]
    rfl
  · cases h

/-- The words that can be taken off the front can be read by offsets. -/
theorem word_of_takeWords : ∀ {n i : Nat} {d rest : Bytes} {words : List UInt32},
    takeWords n (d.drop i) = some (words, rest) → ∀ {k : Nat} {w : UInt32}, words[k]? = some w →
    word d (i + 4 * k) = pure w
  | 0, _, _, _, _, h, _, _, hw => by
    cases h
    cases hw
  | n + 1, i, d, rest, words, h, k, w, hw => by
    obtain ⟨⟨first, behind⟩, hfirst, h⟩ := Option.bind_eq_some_iff.1 h
    obtain ⟨⟨more, rest⟩, hmore, h⟩ := Option.bind_eq_some_iff.1 h
    cases h
    obtain ⟨hword, rfl⟩ := word_of_takeWord hfirst
    cases k with
    | zero =>
      cases hw
      exact hword
    | succ k =>
      rw [Nat.mul_succ, Nat.add_comm (4 * k), ← Nat.add_assoc]
      exact word_of_takeWords hmore hw

theorem SenderReport.scan_eq {d : Bytes} {r : SenderReport} (h : ofBody (d.drop 4) = some r) : scan d = pure r := by
  unfold ofBody at h
  split at h
  · rename_i htake
    cases h
    have hword {k : Nat} {w : UInt32} := @word_of_takeWords _ _ _ _ _ htake k w
    rw [scan, hword (k := 0) rfl, hword (k := 1) rfl, hword (k := 2) rfl, hword (k := 3) rfl, hword (k := 4) rfl,
      hword (k := 5) rfl]
    rfl
  · cases h

theorem ReportBlock.scan_eq {d : Bytes} {b : ReportBlock} (h : ofBody d = some b) : scan d = pure b := by
  unfold ofBody at h
  split at h
  · rename_i htake
    cases h
    have hword {k : Nat} {w : UInt32} := @word_of_takeWords _ 0 d _ _ htake k w
    rw [scan, show word d 0 = _ from hword (k := 0) rfl, show word d 4 = _ from hword (k := 1) rfl,
      show word d 8 = _ from hword (k := 2) rfl, show word d 12 = _ from hword (k := 3) rfl,
      show word d 16 = _ from hword (k := 4) rfl, show word d 20 = _ from hword (k := 5) rfl]
    rfl
  · cases h

theorem ReceiverReport.scan_eq {count : Nat} {d : Bytes} {r : ReceiverReport} (hlength : 8 ≤ d.length)
    (h : ofBody count (d.drop 4) = some r) : scan count d = pure r := by
  obtain ⟨⟨reporter, behind⟩, hreporter, h⟩ := Option.bind_eq_some_iff.1 h
  obtain ⟨hword, rfl⟩ := word_of_takeWord hreporter
  unfold scan
  rcases Nat.eq_zero_or_pos count with rfl | hpos
  · cases h
    rw [if_neg (Nat.lt_irrefl 0), hword]
    rfl
  · dsimp only at h
    rw [if_neg (Nat.ne_of_gt hpos)] at h
    obtain ⟨block, hblock, h⟩ := Option.bind_eq_some_iff.1 h
    cases h
    rw [if_pos hpos, stretch_of_le hlength (Nat.le_refl _), List.take_length, pure_bind, ReportBlock.scan_eq hblock,
      hword]
    rfl

/-- **Reading by offsets** always has a result, that of reading off the front. -/
theorem Report.scan_eq (d : Bytes) : (Report.scan d).run = some (Report.parse d) := by
  by_cases hshort : d.length < 8
  · unfold scan parse
    rw [if_pos hshort, if_pos hshort]
    rfl
  have hheader := Nat.le_of_not_lt hshort
  have hoctet {i : Nat} (hi : i < d.length) : octet d i = pure (d.getD i 0) := by
    refine octet_of_some ?_
    rw [List.getD_eq_getElem?_getD, List.getElem?_eq_getElem hi]
    rfl
  have hversion := version_eq_iff d
  rw [parse_of_header hheader, scan, if_neg hshort]
  simp only [hoctet (show 0 < d.length by omega), hoctet (show 1 < d.length by omega),
    hoctet (show 2 < d.length by omega), hoctet (show 3 < d.length by omega), pure_bind, blocks_eq, extent_eq, ne_eq,
    ← hversion]
  split
  · rfl
  split
  · rfl
  rename_i hcut
  -- from here on only the octets of the report are read
  have hwhole := Nat.le_of_not_lt hcut
  have hlength := length_front hwhole
  rw [stretch_of_le (Nat.zero_le _) hwhole, pure_bind, List.drop_zero]
  rw [ofBody, hlength]
  change ExceptT.run (if kind d = _ then _ else if kind d = _ then _ else
    throw (Malformation.unsupportedType (kind d))) = _
  by_cases hsender : kind d = senderReportType
  · rw [if_pos hsender, if_pos hsender]
    by_cases hroom : extent d < 28 + 24 * blocks d
    · rw [if_pos hroom, if_pos hroom]
      rfl
    · obtain ⟨r, hread, -⟩ := SenderReport.ofBody_of_le ((front d).drop 4) (by omega)
      rw [if_neg hroom, if_neg hroom, hread, show d.take (extent d) = front d from rfl, SenderReport.scan_eq hread]
      rfl
  rw [if_neg hsender, if_neg hsender]
  by_cases hreceiver : kind d = receiverReportType
  · rw [if_pos hreceiver, if_pos hreceiver]
    by_cases hroom : extent d < 8 + 24 * blocks d
    · rw [if_pos hroom, if_pos hroom]
      rfl
    · obtain ⟨r, hread, -⟩ :=
        ReceiverReport.ofBody_of_le (blocks d) ((front d).drop 4) (by omega) fun _ => by omega
      have hfront : 8 ≤ (front d).length := by
        rw [List.length_drop] at hlength
        omega
      rw [if_neg hroom, if_neg hroom, hread, show d.take (extent d) = front d from rfl,
        ReceiverReport.scan_eq hfront hread]
      rfl
  · rw [if_neg hreceiver, if_neg hreceiver]
    rfl

/-! ## What does not matter -/

/-- Two datagrams begin with the same report. -/
def SameFront (d d' : Bytes) : Prop := d'.take (extent d) = front d

variable {d d' : Bytes}

theorem SameFront.getD (h : SameFront d d') {i : Nat} (hi : i < 4) : d'.getD i 0 = d.getD i 0 := by
  have := extent_pos d
  have hget := congrArg (fun l : Bytes => l[i]?) h
  simp only [front, List.getElem?_take, if_pos (show i < extent d by omega)] at hget
  rw [List.getD_eq_getElem?_getD, List.getD_eq_getElem?_getD, hget]

theorem SameFront.extent (h : SameFront d d') : extent d' = extent d := by
  rw [Rtcp.extent, Rtcp.extent, h.getD (show 2 < 4 by decide), h.getD (show 3 < 4 by decide)]

theorem SameFront.version (h : SameFront d d') : version d' = version d := by
  rw [Rtcp.version, Rtcp.version, h.getD (show 0 < 4 by decide)]

theorem SameFront.blocks (h : SameFront d d') : blocks d' = blocks d := by
  rw [Rtcp.blocks, Rtcp.blocks, h.getD (show 0 < 4 by decide)]

theorem SameFront.kind (h : SameFront d d') : kind d' = kind d := h.getD (show 1 < 4 by decide)

theorem SameFront.front (h : SameFront d d') : front d' = front d := by
  rw [Rtcp.front, h.extent]
  exact h

/-- A datagram that is cut short begins with no other datagram's report. -/
theorem SameFront.whole_iff (h : SameFront d d') : Rtcp.extent d ≤ d'.length ↔ Rtcp.extent d ≤ d.length := by
  have hlength := congrArg List.length h
  rw [List.length_take, Rtcp.front, List.length_take] at hlength
  omega

/-- **What follows the first report does not matter**, as long as there is a header. -/
theorem SameFront.parse (h : SameFront d d') (hheader : 8 ≤ d'.length ↔ 8 ≤ d.length) :
    Report.parse d' = Report.parse d := by
  by_cases hlong : 8 ≤ d.length
  · have hwhole := h.whole_iff
    rw [Report.parse_of_header hlong, Report.parse_of_header (hheader.2 hlong), h.version, h.extent, h.blocks,
      h.kind, h.front]
    simp only [← Nat.not_le, hwhole]
  · unfold Report.parse
    rw [if_pos (Nat.not_le.1 hlong), if_pos (Nat.not_le.1 fun h => hlong (hheader.1 h))]

theorem SameFront.header_iff (h : SameFront d d') (hextent : 8 ≤ Rtcp.extent d) : 8 ≤ d'.length ↔ 8 ≤ d.length := by
  have hlength := congrArg List.length h
  rw [List.length_take, Rtcp.front, List.length_take] at hlength
  omega

theorem Readable.extent (h : Readable d) : 8 ≤ Rtcp.extent d := by
  have := h.room
  omega

/-- Whether a report is read, and which, depends only on the octets of the report. -/
theorem SameFront.parse_eq_ok_iff (h : SameFront d d') (r : Report) :
    Report.parse d' = .ok r ↔ Report.parse d = .ok r := by
  by_cases hextent : 8 ≤ Rtcp.extent d
  · rw [h.parse (h.header_iff hextent)]
  · constructor
    · intro hread
      have hread := (readable_of_parse hread).extent
      rw [h.extent] at hread
      exact absurd hread hextent
    · exact fun hread => absurd (readable_of_parse hread).extent hextent

/-- **Reports at the front of datagrams.**  No octet is asked for that is not there, in the datagram or, behind the
header, in its first report.  A datagram is read exactly if its first report is whole and has room for what its header
announces.  All that is read stands in the octets of the first report.  What follows these octets decides neither
whether a report is read nor what it is; nor does it decide about the refusal, but that a report of one word is refused
as cut short when no second word follows. -/
theorem Report.parse_extent (d : Bytes) :
    (Report.scan d).run = some (Report.parse d) ∧
    ((∃ r, Report.parse d = .ok r) ↔ Readable d) ∧
    (∀ r, Report.parse d = .ok r → r.StandsIn d) ∧
    ∀ d', SameFront d d' →
      (∀ r, Report.parse d' = .ok r ↔ Report.parse d = .ok r) ∧
      (extent d ≠ 4 ∨ (8 ≤ d'.length ↔ 8 ≤ d.length) → Report.parse d' = Report.parse d) := by
  refine ⟨Report.scan_eq d, ⟨fun ⟨_, h⟩ => readable_of_parse h, fun h => ?_⟩, fun r hread => ?_,
    fun d' h => ⟨h.parse_eq_ok_iff, ?_⟩⟩
  · obtain ⟨r, hread, -⟩ := h.parse
    exact ⟨r, hread⟩
  · obtain ⟨r', hread', hstands⟩ := (readable_of_parse hread).parse
    rw [hread] at hread'
    rw [Except.ok.inj hread']
    exact hstands
  · rintro (hextent | hheader)
    · have hwords : extent d = 4 * _ := rfl
      exact h.parse (h.header_iff (by omega))
    · exact h.parse hheader

/-- A receiver report with one block and a length of eleven words, of which three are not its own. -/
def spacious : Bytes :=
  [0x81, 201, 0, 10, 0, 0, 0, 9, 0, 0, 0, 1, 3, 0xff, 0xff, 0xfe, 0, 1, 0, 2, 0, 0, 0, 5, 1, 2, 3, 4, 0, 0, 0, 7] ++
    List.replicate 12 0xee

theorem Report.parse_extent_spacious :
    let read : Report := .receiver ⟨9, some ⟨1, 3, -2, 0x10002, 5, 0x1020304, 7⟩⟩
    SameFront (spacious ++ [0xaa]) (spacious ++ [0xbb, 0xcc]) ∧ Report.parse (spacious ++ [0xaa]) = .ok read ∧
      Report.parse (spacious ++ [0xbb, 0xcc]) = .ok read := by
  intro read
  have hsame : SameFront (spacious ++ [0xaa]) (spacious ++ [0xbb, 0xcc]) := by
    unfold SameFront
    decide
  have hread : Report.parse (spacious ++ [0xaa]) = .ok read := by decide
  obtain ⟨-, -, -, hfront⟩ := parse_extent (spacious ++ [0xaa])
  exact ⟨hsame, hread, ((hfront _ hsame).1 read).2 hread⟩

/-- Four octets that announce no more than themselves are refused in two ways, by what follows them. -/
theorem refusal_depends_on_what_follows :
    let d : Bytes := [0x80, 200, 0, 0]
    let d' : Bytes := [0x80, 200, 0, 0, 0, 0, 0, 0]
    extent d = 4 ∧ d'.take (extent d) = d.take (extent d) ∧ Report.parse d = .error .truncated ∧
      Report.parse d' = .error .badLength := by decide

end Rtcp
end VideoTransport
