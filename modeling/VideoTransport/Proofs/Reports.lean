import VideoTransport.Rtcp.Report
/-!
# Reports — what is written reads back, whatever follows it

Every report written reads back from the front of a datagram (`SenderReport.parse_write`, `ReceiverReport.parse_write`).
A loss that twenty-four bits do not hold comes back as the nearest one that they do.
-/
namespace VideoTransport
namespace Rtcp

/-! ## Words -/

theorem takeWords_flatMap : ∀ (words : List UInt32) (rest : Bytes),
    takeWords words.length (words.flatMap Bytes.ofWord32 ++ rest) = some (words, rest)
  | [], _ => rfl
  | w :: words, rest => by
    have hword : takeWord (Bytes.ofWord32 w ++ (words.flatMap Bytes.ofWord32 ++ rest)) =
        some (w, words.flatMap Bytes.ofWord32 ++ rest) :=
      congrArg (fun v => some (v, _)) (Bytes.word32_ofWord32 w)
    rw [List.length_cons, takeWords, List.flatMap_cons, List.append_assoc, hword]
    simp [takeWords_flatMap words rest]

/-- Twenty-four bits hold a number, or the nearest one that they can hold. -/
theorem lostOfField_lostField (n : Int) : lostOfField (lostField n) = clampLost n := by
  unfold lostOfField lostField clampLost
  split <;> omega

theorem lostField_lt (n : Int) : lostField n < 0x1000000 := by
  unfold lostField
  omega

/-! ## Headers -/

theorem count_octet : ∀ count < 32, UInt8.ofNat (0x80 + count) >>> 6 = 2 ∧
    (UInt8.ofNat (0x80 + count) &&& 0x1f).toNat = count := by
  decide

/-- What a report holds whose type and number of blocks are known. -/
def Report.ofBody (count : Nat) (kind : UInt8) (body : Bytes) : Except Malformation Report :=
  if kind = senderReportType then
    if body.length + 4 < 28 + 24 * count then .error .badLength
    else ((SenderReport.ofBody body).map Report.sender).elim (.error .badLength) .ok
  else if kind = receiverReportType then
    if body.length + 4 < 8 + 24 * count then .error .badLength
    else ((ReceiverReport.ofBody count body).map Report.receiver).elim (.error .badLength) .ok
  else .error (.unsupportedType kind)

/-- A header that was written is taken off again, and what does not belong to the report is cut off. -/
theorem Report.parse_writeHeader (count length : Nat) (kind : UInt8) {body : Bytes}
    (hbody : body.length + 4 = length) (rest : Bytes) (hcount : count < 32) (hlength : 8 ≤ length)
    (hwords : length % 4 = 0) (hlimit : length ≤ 262144) :
    Report.parse (writeHeader count kind length ++ body ++ rest) = Report.ofBody count kind body := by
  obtain ⟨hversion, hblocks⟩ := count_octet count hcount
  have hword : Bytes.word16 (UInt8.ofNat ((UInt16.ofNat (length / 4 - 1)).toNat / 256))
      (UInt8.ofNat (UInt16.ofNat (length / 4 - 1)).toNat) = UInt16.ofNat (length / 4 - 1) :=
    Bytes.word16_ofWord16 _
  have htotal : 4 * ((UInt16.ofNat (length / 4 - 1)).toNat + 1) = length := by
    rw [UInt16.toNat_ofNat']
    omega
  have hall : (writeHeader count kind length ++ body ++ rest).length = length + rest.length := by
    simp only [writeHeader, List.length_append, List.length_cons, Bytes.length_ofWord16]
    omega
  unfold Report.parse Report.ofBody
  rw [hall, if_neg (by omega), hbody]
  simp only [writeHeader, Bytes.ofWord16, List.cons_append, List.nil_append, hversion, hblocks, hword, htotal]
  rw [if_neg (fun h => h rfl), if_neg (by omega), ← hbody, Nat.add_sub_cancel, List.take_left]

/-! ## Reports -/

theorem SenderReport.ofBody_words (r : SenderReport) :
    SenderReport.ofBody ([r.ssrc, r.time.seconds, r.time.fraction, r.rtpTimestamp, r.packetCount,
      r.octetCount].flatMap Bytes.ofWord32) = some r := by
  have hwords := takeWords_flatMap [r.ssrc, r.time.seconds, r.time.fraction, r.rtpTimestamp, r.packetCount,
    r.octetCount] []
  rw [List.append_nil] at hwords
  rw [SenderReport.ofBody, show 6 = List.length [r.ssrc, r.time.seconds, r.time.fraction, r.rtpTimestamp,
    r.packetCount, r.octetCount] from rfl, hwords]

/-- **A sender report reads back.** -/
theorem SenderReport.parse_write (r : SenderReport) (rest : Bytes) :
    Report.parse (r.write ++ rest) = .ok (.sender r) := by
  have hparse := Report.parse_writeHeader 0 28 senderReportType
    (show ([r.ssrc, r.time.seconds, r.time.fraction, r.rtpTimestamp, r.packetCount, r.octetCount].flatMap
      Bytes.ofWord32).length + 4 = 28 from rfl) rest (by decide) (by decide) rfl (by decide)
  refine hparse.trans ?_
  rw [Report.ofBody, if_pos rfl, SenderReport.ofBody_words]
  rfl

/-- The word that holds the share lost and the loss. -/
def ReportBlock.lossWord (b : ReportBlock) : UInt32 :=
  UInt32.ofNat (b.fractionLost.toNat * 0x1000000 + lostField b.cumulativeLost)

theorem ReportBlock.toNat_lossWord (b : ReportBlock) :
    b.lossWord.toNat / 0x1000000 = b.fractionLost.toNat ∧
      b.lossWord.toNat % 0x1000000 = lostField b.cumulativeLost := by
  have hfraction := b.fractionLost.toNat_lt
  have hfield := lostField_lt b.cumulativeLost
  rw [lossWord, UInt32.toNat_ofNat']
  omega

@[simp] theorem ReportBlock.length_write (b : ReportBlock) : b.write.length = 24 := rfl

theorem ReportBlock.ofBody_write (b : ReportBlock) :
    ReportBlock.ofBody b.write = some { b with cumulativeLost := clampLost b.cumulativeLost } := by
  obtain ⟨hfraction, hfield⟩ := b.toNat_lossWord
  have hwords := takeWords_flatMap [b.ssrc, b.lossWord, b.extendedHighest, b.jitter, b.lastReport, b.delay] []
  have hread : takeWords 6 b.write = some ([b.ssrc, b.lossWord, b.extendedHighest, b.jitter, b.lastReport, b.delay],
      []) := hwords
  rw [ReportBlock.ofBody, hread]
  simp only [hfraction, hfield, lostOfField_lostField, UInt8.ofNat_toNat]

/-- **A receiver report reads back**, its loss as near as twenty-four bits come to it. -/
theorem ReceiverReport.parse_write (r : ReceiverReport) (rest : Bytes) :
    Report.parse (r.write ++ rest) =
      .ok (.receiver { r with
        block := r.block.map fun b => { b with cumulativeLost := clampLost b.cumulativeLost } }) := by
  obtain ⟨reporter, block⟩ := r
  have hreporter (more : Bytes) : takeWord (Bytes.ofWord32 reporter ++ more) = some (reporter, more) :=
    congrArg (fun v => some (v, more)) (Bytes.word32_ofWord32 reporter)
  cases block with
  | none =>
    have hparse := Report.parse_writeHeader 0 8 receiverReportType
      (show (Bytes.ofWord32 reporter ++ []).length + 4 = 8 from rfl) rest (by decide) (by decide) rfl (by decide)
    refine hparse.trans ?_
    rw [Report.ofBody, if_neg (by decide), if_pos rfl, ReceiverReport.ofBody, hreporter]
    rfl
  | some b =>
    have hparse := Report.parse_writeHeader 1 32 receiverReportType
      (show (Bytes.ofWord32 reporter ++ b.write).length + 4 = 32 from rfl) rest (by decide) (by decide) rfl (by decide)
    refine hparse.trans ?_
    rw [Report.ofBody, if_neg (by decide), if_pos rfl, ReceiverReport.ofBody, hreporter]
    simp [b.ofBody_write]

end Rtcp
end VideoTransport
