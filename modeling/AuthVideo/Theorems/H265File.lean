import AuthVideo.Lemmas.H265File
import AuthVideo.Theorems.VideoPath

/-!
# Theorems 63 to 65: the file on its way through the programs

The server cuts its file into frames and hands each one on with its start code. The forwarder looks for I-frames in the first
byte of a payload, and the receiver decrypts whatever is long enough.
-/

namespace AuthVideo.Xop

open H265File CZuc

/-- Theorem 63 (one pass over and over). For every file whose positions an `int` holds there is one list of frames, which are the
bytes of the file one after the other from its start. The thread sends them once and ends, or sends them in a circle for ever; in
the second case no byte of the file is missing, unless the last frame is cut at the 500000 bytes that the buffer holds. -/
theorem frames_repeat_pass (bytes : Bytes) (hsmall : bytes.length < 2 ^ 31) :
    ∃ pass : List Bytes, pass.flatten <+: bytes ∧ (∀ frame ∈ pass.dropLast, 4 ≤ frame.length ∧ frame.length < 500000) ∧
      ((∀ n, H265File.frames n (opened bytes) = pass.take n) ∨
        (pass ≠ [] ∧ (∀ n, H265File.frames n (opened bytes) = (List.replicate n pass).flatten.take n) ∧
          (bytes.length ≤ pass.dropLast.flatten.length + 500000 → pass.flatten = bytes))) := by
  rcases List.eq_nil_or_concat' bytes with rfl | ⟨front, last, rfl⟩
  · refine ⟨[], List.prefix_refl _, fun frame h => (by cases h), Or.inl fun n => ?_⟩
    rw [frames_empty, List.take_nil]
  · have hpos : 0 < (front ++ [last]).length := by simp
    obtain ⟨pass, hflatten, -, hlong, hnext⟩ := exists_pass 0 hsmall hpos
    rw [List.drop_zero] at hflatten
    refine ⟨pass, hflatten, hlong, ?_⟩
    rcases hnext with hstop | ⟨hne, hcycle, hwhole⟩
    · exact Or.inl hstop
    · rw [List.drop_zero, Nat.zero_add] at hwhole
      exact Or.inr ⟨hne, frames_of_cycle hne hcycle, hwhole⟩

/-- A file with a picture of type 19 and the beginning of another picture. -/
def sampleFile : Bytes :=
  [0, 0, 0, 1, 0x26, 1, 0x80] ++ List.replicate 70 7 ++ [0, 0, 0, 1, 2, 1, 0x80, 0, 0, 0, 0, 0, 0]

/-- Its two pictures. -/
theorem frames_repeat_pass_sample :
    ∃ pass : List Bytes, pass.flatten <+: sampleFile ∧ (∀ frame ∈ pass.dropLast, 4 ≤ frame.length ∧ frame.length < 500000) ∧
      ((∀ n, H265File.frames n (opened sampleFile) = pass.take n) ∨
        (pass ≠ [] ∧ (∀ n, H265File.frames n (opened sampleFile) = (List.replicate n pass).flatten.take n) ∧
          (sampleFile.length ≤ pass.dropLast.flatten.length + 500000 → pass.flatten = sampleFile))) :=
  frames_repeat_pass sampleFile (by decide)

/-- A packet that the server sends while it plays a file, to a client with any numbers. -/
def Streamed (bytes : Bytes) (ssrc : UInt32) (pkt : Packet) : Prop :=
  ∃ (n : ℕ) (frame : AVFrame) (now : UInt32) (seq : UInt16) (rtp : RtpPacket),
    frame.nal ∈ H265File.frames n (opened bytes) ∧ rtp ∈ handleFrame now frame ∧ pkt.bytes = Datagram.bytes ssrc ⟨seq, rtp⟩

/-- A frame of a file that begins with a start code begins with one. -/
theorem head_of_mem_frames {bytes frame : Bytes} {n : ℕ} (hsmall : bytes.length < 2 ^ 31) (hzero : bytes.head? = some 0)
    (hmem : frame ∈ H265File.frames n (opened bytes)) : frame.head? = some 0 := by
  have hpos : 0 < bytes.length := by
    cases bytes with
    | nil => cases hzero
    | cons b bytes => exact Nat.succ_pos _
  obtain ⟨pass, -, hpass, -, hnext⟩ := exists_pass 0 hsmall hpos
  rw [List.drop_zero] at hpass
  refine hpass hzero frame ?_
  rcases hnext with hstop | ⟨hne, hcycle, -⟩
  · have hframes : H265File.frames n (opened bytes) = pass.take n := hstop n
    rw [hframes] at hmem
    exact List.mem_of_mem_take hmem
  · have hframes : H265File.frames n (opened bytes) = (List.replicate n pass).flatten.take n := frames_of_cycle hne hcycle n
    rw [hframes] at hmem
    obtain ⟨l, hl, hin⟩ := List.mem_flatten.mp (List.mem_of_mem_take hmem)
    rwa [List.eq_of_mem_replicate hl] at hin

/-- The forwarder masks no part of a packet of such a file. -/
theorem forwardSpan_of_streamed {bytes : Bytes} (hsmall : bytes.length < 2 ^ 31) (hzero : bytes.head? = some 0) {ssrc : UInt32}
    {pkt : Packet} (hpkt : Streamed bytes ssrc pkt) (f : Forwarder) : forwardSpan f.skipRemain (f.load pkt) pkt.bytes.length = none := by
  obtain ⟨n, frame, now, seq, rtp, hmem, hrtp, hbytes⟩ := hpkt
  exact forwardSpan_of_noIFrame f hbytes (noIFrame_handleFrame now (head_of_mem_frames hsmall hzero hmem) rtp hrtp)

/-- One packet passes the forwarder. -/
theorem forward_of_streamed (key : Vector UInt8 32) {bytes : Bytes} (hsmall : bytes.length < 2 ^ 31) (hzero : bytes.head? = some 0)
    {ssrc : UInt32} {pkt : Packet} (hpkt : Streamed bytes ssrc pkt) (f : Forwarder) : (f.forward key pkt).2 = pkt := by
  have hmem : (processRtpPacket key f.skipRemain (f.load pkt) pkt.bytes.length).2 = f.load pkt := by
    rw [processRtpPacket_snd, forwardSpan_of_streamed hsmall hzero hpkt f]
    exact xor_maskOf_none key _ _
  change Mem.packet (processRtpPacket key f.skipRemain (f.load pkt) pkt.bytes.length).2 pkt = pkt
  rw [hmem]
  exact (packet_eq_iff rfl f.buf).mpr fun _ _ => rfl

/-- Theorem 64 (the video goes in the clear). A file of NAL units begins with a start code, and so does each of its frames, as long as
an `int` holds the positions. Whatever the key and the state of the forwarder, and whichever of the packets arrive, in whichever order: the forwarder passes every
one of them on without a change. -/
theorem forwarded_in_clear (key : Vector UInt8 32) (bytes : Bytes) (hsmall : bytes.length < 2 ^ 31) (hzero : bytes.head? = some 0)
    (ssrc : UInt32) (f : Forwarder) (pkts : List Packet) (hpkts : ∀ pkt ∈ pkts, Streamed bytes ssrc pkt) :
    Transducer.run (Forwarder.forward key) f pkts = pkts := by
  induction pkts generalizing f with
  | nil => rfl
  | cons pkt pkts ih =>
    rw [List.forall_mem_cons] at hpkts
    rw [Transducer.run_cons, ih _ hpkts.2, forward_of_streamed key hsmall hzero hpkts.1 f]

/-- The first picture in the packet that it is sent in. -/
def sampleStreamed : Packet where
  bytes := Datagram.bytes 5 ⟨3, ⟨sampleFile.take 77, 9, true⟩⟩
  pos := Nat.succ_pos _
  le := by decide

theorem streamed_sample : ∀ pkt ∈ [sampleStreamed], Streamed sampleFile 5 pkt := by
  intro pkt hpkt
  rw [List.mem_singleton] at hpkt
  subst hpkt
  exact ⟨1, ⟨sampleFile.take 77, 9, by decide, by decide⟩, 0, 3, ⟨sampleFile.take 77, 9, true⟩, by decide +kernel, by decide, rfl⟩

/-- The picture of type 19 leaves the forwarder as it came. -/
theorem forwarded_in_clear_idr :
    Transducer.run (Forwarder.forward gSessionKey) (.start fun _ => 0) [sampleStreamed] = [sampleStreamed] :=
  forwarded_in_clear gSessionKey sampleFile (by decide) rfl 5 _ _ streamed_sample

/-- Theorem 65 (the receiver spoils what came in the clear). Of such packets the receiver holds what the server sent exactly when every
packet of more than 78 bytes meets a keystream of zeros. -/
theorem received_streamed_iff (key : Vector UInt8 32) (bytes : Bytes) (hsmall : bytes.length < 2 ^ 31) (hzero : bytes.head? = some 0)
    (ssrc : UInt32) (forwarderStack receiverStack : Mem) (pkts : List Packet) (hpkts : ∀ pkt ∈ pkts, Streamed bytes ssrc pkt) :
    received key forwarderStack receiverStack pkts = pkts ↔
      ∀ pkt ∈ pkts, 78 < pkt.bytes.length →
        ∀ b ∈ (zuc256Keystream (zuc256InitState key ((pkt.bytes.drop 14).take 16)) (pkt.bytes.length - 78)).1, b = 0 := by
  have hturn : ∀ pkt ∈ pkts, ∀ f : Forwarder, SameMask key f pkt ↔ (78 < pkt.bytes.length →
      ∀ b ∈ (zuc256Keystream (zuc256InitState key ((pkt.bytes.drop 14).take 16)) (pkt.bytes.length - 78)).1, b = 0) := by
    intro pkt hpkt f
    have hiv : 78 < pkt.bytes.length → (f.load pkt).read 14 16 = (pkt.bytes.drop 14).take 16 := by
      intro hlong
      refine List.ext_getElem (by simp; omega) fun i hi _ => ?_
      rw [length_read] at hi
      rw [getElem_read]
      unfold Forwarder.load
      rw [write_apply _ (by omega)]
      simp
    unfold SameMask
    rw [forwardSpan_of_streamed hsmall hzero (hpkts pkt hpkt) f]
    unfold receiveSpan
    by_cases hlong : 78 < pkt.bytes.length
    · simp only [hlong, if_true, maskOf, hiv hlong, true_implies]
      rw [List.forall_mem_iff_forall_getElem]
      simp only [length_zuc256Keystream]
      constructor
      · intro h i hi
        have hbyte := h (78 + i) (by omega)
        rw [if_pos (by omega), Nat.add_sub_cancel_left, List.getD_eq_getElem?_getD, List.getElem?_eq_getElem (by simpa using hi)] at hbyte
        exact hbyte.symm
      · intro h i hi
        split
        · rw [List.getD_eq_getElem?_getD, List.getElem?_eq_getElem (by simp; omega)]
          exact (h (i - 78) (by omega)).symm
        · rfl
    · simp [hlong, maskOf]
  rw [received, Transducer.run_run_eq_iff (receive_forward_iff key)]
  constructor
  · intro h pkt hpkt
    obtain ⟨earlier, later, hsplit⟩ := List.mem_iff_append.mp hpkt
    exact (hturn pkt hpkt _).mp (h earlier pkt later hsplit)
  · intro h earlier pkt later hsplit
    have hpkt : pkt ∈ pkts := by
      rw [hsplit]
      simp
    exact (hturn pkt hpkt _).mpr (h pkt hpkt)

/-- The receiver does not hold that picture. -/
theorem received_streamed_iff_idr :
    received gSessionKey (fun _ => 0) (fun _ => 0) [sampleStreamed] ≠ [sampleStreamed] := by
  rw [ne_eq, received_streamed_iff gSessionKey sampleFile (by decide) rfl 5 (fun _ => 0) (fun _ => 0) _ streamed_sample]
  decide +kernel

end AuthVideo.Xop
