import AuthVideo.Lemmas.Fu
import AuthVideo.Lib.Word32

/-!
# Fragments on their way

`HandleFrame` cuts a long unit into the fragments of `fuPayloads`. A datagram is read back as it was sent, so a turn of the client
is a call of `fu_process` with the payload and the timestamp of the packet.
-/

namespace AuthVideo

/-! ## The cut -/

/-- The loop makes the payloads of some cut of its bytes. -/
theorem fragments_payloads (timestamp : UInt32) (b0 b1 fu2 : UInt8) (body : Bytes) :
    ∃ piece pieces, body = (piece :: pieces).flatten ∧
      (fragments timestamp (fuIndicator b0) b1 fu2 body).map RtpPacket.payload = fuPayloads b0 b1 fu2 piece pieces := by
  induction fu2, body using fragments.induct with
  | case1 fu2 body hlong ih =>
    obtain ⟨piece, pieces, hbody, hpayloads⟩ := ih
    refine ⟨body.take (MAX_RTP_PAYLOAD_SIZE - 3), piece :: pieces, ?_, ?_⟩
    · rw [List.flatten_cons, ← hbody, List.take_append_drop]
    · rw [fragments, dif_pos hlong, List.map_cons, hpayloads]
      rfl
  | case2 fu2 body hshort =>
    refine ⟨body, [], (List.flatten_singleton ..).symm, ?_⟩
    rw [fragments, dif_neg hshort]
    rfl

theorem fragments_timestamp {timestamp : UInt32} {fu0 fu1 fu2 : UInt8} {body : Bytes} :
    ∀ pkt ∈ fragments timestamp fu0 fu1 fu2 body, pkt.timestamp = timestamp := by
  induction fu2, body using fragments.induct with
  | case1 fu2 body hlong ih =>
    rw [fragments, dif_pos hlong, List.forall_mem_cons]
    exact ⟨rfl, ih⟩
  | case2 fu2 body hshort =>
    rw [fragments, dif_neg hshort, List.forall_mem_singleton]

/-- The packets of a frame bear its timestamp. -/
theorem handleFrame_timestamp {now : UInt32} {frame : AVFrame} :
    ∀ pkt ∈ handleFrame now frame, pkt.timestamp = frame.stamp now := by
  unfold handleFrame
  split
  · rw [List.forall_mem_singleton]
  · exact fragments_timestamp

/-- A longer frame goes as the fragments of its unit. -/
theorem handleFrame_fragments {frame : AVFrame} (now : UInt32) (hlong : MAX_RTP_PAYLOAD_SIZE < frame.nal.length) :
    ∃ b0 b1 piece pieces, frame.nal = b0 :: b1 :: (piece :: pieces).flatten ∧
      (handleFrame now frame).map RtpPacket.payload = fuPayloads b0 b1 (fuStart b0) piece pieces := by
  have htwo := frame.two_le
  match hnal : frame.nal with
  | [] | [_] =>
    rw [hnal] at htwo
    simp at htwo
  | b0 :: b1 :: body =>
    obtain ⟨piece, pieces, hbody, hpayloads⟩ := fragments_payloads (frame.stamp now) b0 b1 (fuStart b0) body
    refine ⟨b0, b1, piece, pieces, by rw [hbody], ?_⟩
    rw [handleFrame, if_neg (Nat.not_le.mpr hlong), hnal]
    exact hpayloads

/-! ## Numbers -/

theorem map_pkt_numbered (seq : UInt16) (pkts : List RtpPacket) : (numbered seq pkts).map Datagram.pkt = pkts := by
  induction pkts generalizing seq with
  | nil => rfl
  | cons pkt pkts ih => rw [numbered, List.map_cons, ih]

/-! ## Packets read back -/

/-- The four bytes of a number. -/
theorem be32_bytes (x : UInt32) : be32 (x >>> 24).toUInt8 (x >>> 16).toUInt8 (x >>> 8).toUInt8 x.toUInt8 = x :=
  Word32.word_of_bytes x

/-- The two bytes of a sequence number. -/
theorem be16_bytes (x : UInt16) : ((x >>> 8).toUInt8.toUInt16 <<< 8) ||| x.toUInt8.toUInt16 = x := by
  apply UInt16.eq_of_toBitVec_eq
  ext i hi
  interval_cases i <;> simp [-UInt16.toUInt16_toUInt8]

/-- `parse_rtp` undoes `SetRtpHeader`. -/
theorem parseRtp_bytes (ssrc : UInt32) (d : Datagram) :
    parseRtp (d.bytes ssrc) = some (⟨d.seq, d.pkt.timestamp, ssrc, if d.pkt.last then 1 else 0⟩, d.pkt.payload) := by
  have hlen : ¬(d.bytes ssrc).length < 12 := by
    rw [Datagram.bytes, List.length_append]
    exact Nat.not_lt.mpr (Nat.le_add_right 12 _)
  have hseq := be16_bytes d.seq
  have htime := be32_bytes d.pkt.timestamp
  have hssrc := be32_bytes ssrc
  have hmarker : ((((if d.pkt.last then 0x80 else 0) ||| 96 : UInt8) >>> 7) &&& 0x1) = if d.pkt.last then 1 else 0 := by
    cases d.pkt.last <;> rfl
  rw [parseRtp, if_neg hlen]
  refine congrArg some (Prod.ext ?_ rfl)
  exact (RtpHeader.mk.injEq ..).mpr ⟨hseq, htime, hssrc, hmarker⟩

/-- The client and `fu_process` read one type. -/
theorem payloadType_eq (payload : Bytes) : payloadType payload = (payload.getD 0 0 >>> 1) &&& 0x3F := by
  apply UInt8.eq_of_toBitVec_eq
  simp only [payloadType]
  ext i hi
  interval_cases i <;> simp

/-! ## What is taken for a fragment -/

/-- A payload that `fu_process` takes for a fragment. -/
def IsFragment (payload : Bytes) : Prop := 3 ≤ payload.length ∧ payloadType payload = 49
deriving Decidable

/-- A fragment with the start bit. -/
def Starts (payload : Bytes) : Prop := IsFragment payload ∧ payload.getD 2 0 &&& 0x80 ≠ 0
deriving Decidable

/-- A fragment with the end bit. -/
def Ends (payload : Bytes) : Prop := IsFragment payload ∧ payload.getD 2 0 &&& 0x40 ≠ 0
deriving Decidable

/-- Anything else is passed over. -/
theorem fuProcess_of_not_fragment {heap : Heap} {payload : Bytes} {timestamp : UInt32} {pool : FuPool} (h : ¬IsFragment payload) :
    fuProcess heap payload timestamp pool = .ok (none, pool) := by
  unfold fuProcess
  split
  · rfl
  · rename_i hlen
    exact if_pos fun htype => h ⟨Nat.not_lt.mp hlen, htype⟩

/-- A fragment in the bytes that `HandleFrame` writes. -/
theorem isFragment_fragment (b0 b1 fu2 : UInt8) (piece : Bytes) : IsFragment (fragment b0 b1 fu2 piece) :=
  ⟨Nat.le_add_left 3 piece.length, fragment_type b0 b1⟩

theorem starts_fragment {b0 b1 fu2 : UInt8} {piece : Bytes} : Starts (fragment b0 b1 fu2 piece) ↔ fu2 &&& 0x80 ≠ 0 :=
  and_iff_right (isFragment_fragment b0 b1 fu2 piece)

theorem ends_fragment {b0 b1 fu2 : UInt8} {piece : Bytes} : Ends (fragment b0 b1 fu2 piece) ↔ fu2 &&& 0x40 ≠ 0 :=
  and_iff_right (isFragment_fragment b0 b1 fu2 piece)

end AuthVideo
