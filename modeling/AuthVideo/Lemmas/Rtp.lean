import AuthVideo.Rtp

/-!
# The masks of the RTP path

A call of either program lays a keystream over the end of its packet. Where the keystream begins, and which bytes of the packet
are its IV, is read off the headers.
-/

namespace AuthVideo

open CZuc

/-! ## The cipher lays its keystream over the data -/

@[simp] theorem length_wordBytes (w : UInt32) : (wordBytes w).length = 4 := rfl

@[simp] theorem length_zuc256Keystream (ctx : Zuc256Ctx) (len : Nat) : (zuc256Keystream ctx len).1.length = len := by
  fun_induction zuc256Keystream ctx len with
  | case1 ctx len hpos w ctx' hword chunk out ctx'' hout ih =>
    have hchunk : chunk ≤ 4 ∧ chunk ≤ len := by
      simp only [chunk]
      split <;> omega
    rw [hout] at ih
    simp only [List.length_append, List.length_take, length_wordBytes, ih]
    omega
  | case2 ctx len hzero => exact (Nat.eq_zero_of_not_pos hzero).symm

/-- A call for no bytes does nothing. -/
@[simp] theorem zuc256Keystream_zero (ctx : Zuc256Ctx) : zuc256Keystream ctx 0 = ([], ctx) := by
  rw [zuc256Keystream, dif_neg (Nat.lt_irrefl 0)]

/-- A turn of the loop of `zuc256_keystream`. -/
theorem zuc256Keystream_of_pos {ctx : Zuc256Ctx} {len : Nat} (hpos : 0 < len) :
    zuc256Keystream ctx len =
      ((wordBytes (zuc256KeystreamWord ctx).1).take len ++ (zuc256Keystream (zuc256KeystreamWord ctx).2 (len - 4)).1,
        (zuc256Keystream (zuc256KeystreamWord ctx).2 (len - 4)).2) := by
  rw [zuc256Keystream, dif_pos hpos]
  by_cases hlen : len > 4
  · simp only [if_pos hlen]
    rw [List.take_of_length_le (i := len) (by simp; omega), List.take_of_length_le (i := 4) (by simp)]
  · simp only [if_neg hlen, Nat.sub_self, Nat.sub_eq_zero_of_le (Nat.not_lt.mp hlen)]

/-- The keystream starts with the bytes of the next word. -/
theorem zuc256Keystream_fst {ctx : Zuc256Ctx} {len : Nat} (hpos : 0 < len) :
    (zuc256Keystream ctx len).1 =
      (wordBytes (zuc256KeystreamWord ctx).1).take len ++ (zuc256Keystream (zuc256KeystreamWord ctx).2 (len - 4)).1 := by
  rw [zuc256Keystream_of_pos hpos]

/-- A list of bytes is masked up to a cut and from the cut on. -/
theorem zipWith_xor_cut {data ks ks' : Bytes} {n : Nat} (hlen : (data.take n).length = ks.length) :
    List.zipWith (· ^^^ ·) data (ks ++ ks') =
      List.zipWith (· ^^^ ·) (data.take n) ks ++ List.zipWith (· ^^^ ·) (data.drop n) ks' := by
  conv_lhs => rw [← List.take_append_drop n data]
  exact List.zipWith_append hlen

/-- `zuc256_crypt` lays what `zuc256_keystream` would produce over its input. -/
theorem zuc256Crypt_fst (ctx : Zuc256Ctx) (input : Bytes) :
    (zuc256Crypt ctx input).1 = List.zipWith (· ^^^ ·) input (zuc256Keystream ctx input.length).1 := by
  fun_induction zuc256Crypt ctx input with
  | case1 ctx input hpos w ctx' hword out ctx'' hout ih =>
    have hword4 : List.zipWith (· ^^^ ·) (input.take 4) ((wordBytes w).take input.length) =
        List.zipWith (· ^^^ ·) (input.take 4) (wordBytes w) := by
      have hshort : (input.take 4).take input.length = input.take 4 := List.take_of_length_le (List.length_take_le' 4 input)
      calc List.zipWith (· ^^^ ·) (input.take 4) ((wordBytes w).take input.length)
        _ = (List.zipWith (· ^^^ ·) (input.take 4) (wordBytes w)).take input.length := by rw [List.take_zipWith, hshort]
        _ = List.zipWith (· ^^^ ·) (input.take 4) (wordBytes w) :=
          List.take_of_length_le (by rw [List.length_zipWith, List.length_take]; omega)
    rw [hout] at ih
    rw [zuc256Keystream_fst hpos, zipWith_xor_cut (n := 4) (by simp [Nat.min_comm]), hword, hword4, ← List.length_drop, ← ih]
  | case2 ctx input hzero =>
    rw [List.eq_nil_of_length_eq_zero (Nat.eq_zero_of_not_pos hzero)]
    rfl

/-! ## The buffer -/

@[simp] theorem length_read (m : Mem) (p n : Nat) : (m.read p n).length = n := by simp [Mem.read]

@[simp] theorem getElem_read (m : Mem) (p n i : Nat) (hi : i < (m.read p n).length) : (m.read p n)[i] = m (p + i) := by
  simp [Mem.read]

/-- Two memories that agree on a stretch are read alike there. -/
theorem read_congr {m m' : Mem} {p n : Nat} (h : ∀ i, p ≤ i → i < p + n → m i = m' i) : m.read p n = m'.read p n := by
  refine List.ext_getElem (by simp) ?_
  intro i hi _
  simp only [length_read] at hi
  simp only [getElem_read]
  exact h _ (by omega) (by omega)

/-- A write is read back. -/
@[simp] theorem read_write (m : Mem) (p : Nat) (data : Bytes) : (m.write p data).read p data.length = data := by
  refine List.ext_getElem (by simp) ?_
  intro i _ hi
  simp [Mem.write, hi]

/-! ## Masks -/

/-- Where a call masks its packet: from `start` to the end, with the 16 bytes at `ivAt` as the IV. -/
structure Span where
  ivAt : Nat
  start : Nat
  deriving DecidableEq

section Masks

variable (key : Vector UInt8 32)

/-- The mask of a call over the memory, zero where it masks nothing. -/
def maskOf (rtp : Mem) (len : Nat) : Option Span → Mem
  | none => fun _ => 0
  | some span => fun i =>
    if span.start ≤ i then
      (zuc256Keystream (zuc256InitState key (rtp.read span.ivAt 16)) (len - span.start)).1.getD (i - span.start) 0
    else 0

/-- `zuc256_xor_inplace` lays the mask of its span. -/
theorem zucXor_eq {rtp : Mem} {len : Nat} (span : Span) :
    zucXor key rtp span.ivAt span.start (len - span.start) = fun i => rtp i ^^^ maskOf key rtp len (some span) i := by
  have hinit : zuc256Init key (rtp.read span.ivAt 16) = some (zuc256InitState key (rtp.read span.ivAt 16)) :=
    if_neg (by simp)
  funext i
  simp only [zucXor, hinit, Mem.write, maskOf, zuc256Crypt_fst, length_read]
  by_cases hi : span.start ≤ i
  · simp only [if_pos hi]
    by_cases hin : i - span.start < len - span.start
    · simp [hin, Nat.add_sub_cancel' hi]
    · simp [hin]
  · simp only [if_neg hi, UInt8.xor_zero]

/-- The `skip_remain` that a call goes on with: the start bit sets it to 64. -/
def skipNow (skipRemain : Nat) (fuHeader : UInt8) : Nat := if fuHeader &&& 0x80 ≠ 0 then SKIP_PAYLOAD_PREFIX else skipRemain

/-- Where the forwarder masks a packet. -/
def forwardSpan (skipRemain : Nat) (rtp : Mem) (len : Nat) : Option Span :=
  match rtpHeaderLen rtp len with
  | none => none
  | some hdrLen =>
    if len ≤ hdrLen + 2 then none
    else if (rtp hdrLen >>> 1) &&& 0x3F ≠ 49 then
      if (rtp hdrLen >>> 1) &&& 0x3F ∈ iFrameTypes ∧ hdrLen + 66 < len then some ⟨hdrLen + 2, hdrLen + 66⟩ else none
    else
      if rtp (hdrLen + 2) &&& 0x3F ∈ iFrameTypes ∧ hdrLen + 3 + skipNow skipRemain (rtp (hdrLen + 2)) < len then
        some ⟨hdrLen + 3, hdrLen + 3 + skipNow skipRemain (rtp (hdrLen + 2))⟩
      else none

/-- Where the receiver masks a packet. -/
def receiveSpan (len : Nat) : Option Span := if 78 < len then some ⟨14, 78⟩ else none

/-- An empty mask changes nothing. -/
theorem xor_maskOf_none (rtp : Mem) (len : Nat) : (fun i => rtp i ^^^ maskOf key rtp len none i) = rtp :=
  funext fun _ => UInt8.xor_zero

/-- The single NAL units: the branch masks from byte 66 of the payload on. -/
theorem single_eq (skipRemain : Nat) (rtp : Mem) (len hdrLen : Nat) :
    (if len - hdrLen ≤ 2 + SKIP_PAYLOAD_PREFIX then (skipRemain, rtp)
      else (skipRemain, zucXor key rtp (hdrLen + 2) (hdrLen + 2 + SKIP_PAYLOAD_PREFIX)
        (len - hdrLen - 2 - SKIP_PAYLOAD_PREFIX))).2 =
      fun i => rtp i ^^^ maskOf key rtp len (if hdrLen + 66 < len then some ⟨hdrLen + 2, hdrLen + 66⟩ else none) i := by
  have hskip : SKIP_PAYLOAD_PREFIX = 64 := rfl
  by_cases hlen : hdrLen + 66 < len
  · have hleft : len - hdrLen - 2 - SKIP_PAYLOAD_PREFIX = len - (hdrLen + 66) := by omega
    rw [if_neg (by omega), if_pos hlen, hleft]
    exact zucXor_eq key ⟨hdrLen + 2, hdrLen + 66⟩
  · rw [if_pos (by omega), if_neg hlen, xor_maskOf_none]

/-- The fragmentation units: the branch masks the part of the fragment that `skip_remain` leaves. -/
theorem fragment_eq (skipNow : Nat) (rtp : Mem) (len hdrLen skip : Nat)
    (hskip : skip = if skipNow > 0 then if len - hdrLen - 3 < skipNow then len - hdrLen - 3 else skipNow else 0) :
    (if len - hdrLen - 3 - skip ≤ 0 then (skipNow - skip, rtp)
      else (skipNow - skip, zucXor key rtp (hdrLen + 3) (hdrLen + 3 + skip) (len - hdrLen - 3 - skip))).2 =
      fun i => rtp i ^^^ maskOf key rtp len
        (if hdrLen + 3 + skipNow < len then some ⟨hdrLen + 3, hdrLen + 3 + skipNow⟩ else none) i := by
  by_cases hlen : hdrLen + 3 + skipNow < len
  · have hall : skip = skipNow := by
      rw [hskip]
      split_ifs <;> omega
    have hleft : len - hdrLen - 3 - skipNow = len - (hdrLen + 3 + skipNow) := by omega
    rw [hall, if_neg (by omega), if_pos hlen, hleft]
    exact zucXor_eq key ⟨hdrLen + 3, hdrLen + 3 + skipNow⟩
  · have hnone : len - hdrLen - 3 - skip ≤ 0 := by
      rw [hskip]
      split_ifs <;> omega
    rw [if_pos hnone, if_neg hlen, xor_maskOf_none]

/-- `process_rtp_packet` lays the mask of the forwarder's span. -/
theorem processRtpPacket_snd (skipRemain : Nat) (rtp : Mem) (len : Nat) :
    (processRtpPacket key skipRemain rtp len).2 = fun i => rtp i ^^^ maskOf key rtp len (forwardSpan skipRemain rtp len) i := by
  unfold processRtpPacket forwardSpan
  cases hhdr : rtpHeaderLen rtp len with
  | none => exact (xor_maskOf_none key rtp len).symm
  | some hdrLen =>
    by_cases hshort : len ≤ hdrLen + 2
    · simp only [if_pos hshort, xor_maskOf_none]
    · by_cases hsingle : (rtp hdrLen >>> 1) &&& 0x3F ≠ 49
      · by_cases htype : (rtp hdrLen >>> 1) &&& 0x3F ∈ iFrameTypes
        · simp only [if_neg hshort, if_pos hsingle, htype, not_true_eq_false, if_false, true_and]
          exact single_eq key skipRemain rtp len hdrLen
        · simp only [if_neg hshort, if_pos hsingle, htype, not_false_eq_true, if_true, false_and, if_false, xor_maskOf_none]
      · have hthree : ¬len - hdrLen < 3 := by omega
        by_cases htype : rtp (hdrLen + 2) &&& 0x3F ∈ iFrameTypes
        · simp only [if_neg hshort, if_neg hsingle, if_neg hthree, htype, not_true_eq_false, if_false, true_and]
          exact fragment_eq key (skipNow skipRemain (rtp (hdrLen + 2))) rtp len hdrLen _ rfl
        · simp only [if_neg hshort, if_neg hsingle, if_neg hthree, htype, not_false_eq_true, if_true, false_and, if_false,
            xor_maskOf_none]

/-- `decrypt_rtp_packet` lays the mask of the receiver's span. -/
theorem decryptRtpPacket_eq (rtp : Mem) (len : Nat) :
    decryptRtpPacket key rtp len = fun i => rtp i ^^^ maskOf key rtp len (receiveSpan len) i := by
  have hheader : RTP_HEADER_LEN = 12 := rfl
  have hskip : SKIP_PAYLOAD_PREFIX = 64 := rfl
  unfold decryptRtpPacket receiveSpan
  by_cases hlen : 78 < len
  · have hleft : len - RTP_HEADER_LEN - 2 - SKIP_PAYLOAD_PREFIX = len - 78 := by omega
    rw [if_neg (by omega), if_pos hlen]
    dsimp only
    rw [if_neg (by omega), hleft]
    exact zucXor_eq key ⟨14, 78⟩
  · rw [if_neg hlen, xor_maskOf_none]
    dsimp only
    rw [if_pos (by omega : len - RTP_HEADER_LEN ≤ 2 + SKIP_PAYLOAD_PREFIX), ite_self]

/-! ## A turn -/

/-- A mask depends on the bytes of its IV. -/
theorem maskOf_congr {rtp rtp' : Mem} {len : Nat} {span : Span} (h : ∀ i, span.ivAt ≤ i → i < span.ivAt + 16 → rtp i = rtp' i) :
    maskOf key rtp len (some span) = maskOf key rtp' len (some span) := by
  simp only [maskOf, read_congr h]

/-- The receiver's mask is the same over two memories that agree before byte 78. -/
theorem maskOf_receiveSpan_congr {rtp rtp' : Mem} {len : Nat} (h : ∀ i < 78, i < len → rtp i = rtp' i) :
    maskOf key rtp len (receiveSpan len) = maskOf key rtp' len (receiveSpan len) := by
  unfold receiveSpan
  split
  · exact maskOf_congr key fun i _ hi => h i (by simp only at hi; omega) (by simp only at hi; omega)
  · rfl

/-- The receiver masks nothing before byte 78. -/
theorem maskOf_receiveSpan_clear (rtp : Mem) (len : Nat) {i : Nat} (hi : i < 78) : maskOf key rtp len (receiveSpan len) i = 0 := by
  unfold receiveSpan
  split
  · exact if_neg (Nat.not_le.mpr hi)
  · rfl

/-- The forwarder's buffer with a packet that came in. -/
def Forwarder.load (f : Forwarder) (pkt : Packet) : Mem := f.buf.write 0 pkt.bytes

/-- The forwarder and the receiver lay the same mask over a packet. -/
def SameMask (f : Forwarder) (pkt : Packet) : Prop :=
  ∀ i < pkt.bytes.length,
    maskOf key (f.load pkt) pkt.bytes.length (forwardSpan f.skipRemain (f.load pkt) pkt.bytes.length) i =
      maskOf key (f.load pkt) pkt.bytes.length (receiveSpan pkt.bytes.length) i

instance (f : Forwarder) (pkt : Packet) : Decidable (SameMask key f pkt) :=
  inferInstanceAs (Decidable (∀ i < pkt.bytes.length, _))

/-- Two masks cancel exactly where they are equal. -/
theorem xor_xor_eq_iff {a b c : UInt8} : a ^^^ b ^^^ c = a ↔ b = c := by
  rw [UInt8.xor_assoc]
  conv_lhs => rhs; rw [← UInt8.xor_zero (a := a)]
  rw [UInt8.xor_right_inj, UInt8.xor_eq_zero_iff]

/-- The buffer holds the bytes of a packet that came in. -/
theorem write_apply (m : Mem) {data : Bytes} {i : Nat} (hi : i < data.length) : m.write 0 data i = data[i] := by
  simp [Mem.write, hi]

/-- A packet in a buffer is one that came in when the buffer holds its bytes. -/
theorem packet_eq_iff {m : Mem} {p q : Packet} (hlen : q.bytes.length = p.bytes.length) (stale : Mem) :
    m.packet q = p ↔ ∀ i < p.bytes.length, m i = stale.write 0 p.bytes i := by
  have hbytes : (m.packet q).bytes = m.read 0 p.bytes.length := by rw [← hlen, Mem.packet]
  rw [Packet.ext_iff, hbytes]
  constructor
  · intro h i hi
    rw [write_apply stale hi]
    have hget := getElem_read m 0 p.bytes.length i (by simpa using hi)
    simp only [h, Nat.zero_add] at hget
    exact hget.symm
  · intro h
    refine List.ext_getElem (by simp) ?_
    intro i _ hi
    rw [getElem_read, Nat.zero_add, h i hi, write_apply stale hi]

/-- The turn lemma. A packet that went through a turn of each program is what came in exactly when the two masks are one. -/
theorem receive_forward_iff (f : Forwarder) (buf : Mem) (pkt : Packet) :
    (receive key buf (f.forward key pkt).2).2 = pkt ↔ SameMask key f pkt := by
  have hlen : (f.forward key pkt).2.bytes.length = pkt.bytes.length := by simp [Forwarder.forward, Mem.packet]
  set n := pkt.bytes.length
  set sentMask := maskOf key (f.load pkt) n (forwardSpan f.skipRemain (f.load pkt) n) with hsentMask
  set sent := buf.write 0 (f.forward key pkt).2.bytes with hsent
  have hsent_apply : ∀ i < n, sent i = f.load pkt i ^^^ sentMask i := by
    intro i hi
    have hbytes : (f.forward key pkt).2.bytes = Mem.read (fun i => f.load pkt i ^^^ sentMask i) 0 n := by
      rw [hsentMask, ← processRtpPacket_snd]
      rfl
    rw [hsent, write_apply buf (by rw [hlen]; exact hi)]
    simp only [hbytes, getElem_read, Nat.zero_add]
  -- the receiver reads its IV from the part that a common mask leaves clear
  have hiv : (∀ i < 78, i < n → sentMask i = 0) →
      maskOf key sent n (receiveSpan n) = maskOf key (f.load pkt) n (receiveSpan n) := by
    intro hclear
    refine maskOf_receiveSpan_congr key ?_
    intro i hi hin
    rw [hsent_apply i hin, hclear i hi hin, UInt8.xor_zero]
  have hback : (receive key buf (f.forward key pkt).2).2 = pkt ↔
      ∀ i < n, sentMask i = maskOf key sent n (receiveSpan n) i := by
    simp only [receive, decryptRtpPacket_eq, hlen]
    rw [packet_eq_iff hlen f.buf]
    refine forall₂_congr ?_
    intro i hi
    rw [← hsent, hsent_apply i hi]
    exact xor_xor_eq_iff
  rw [hback]
  constructor
  · intro h i hi
    have hsame := hiv fun j hj hjn => (h j hjn).trans (maskOf_receiveSpan_clear key sent n hj)
    exact (h i hi).trans (congrFun hsame i)
  · intro h i hi
    have hsame := hiv fun j hj hjn => (h j hjn).trans (maskOf_receiveSpan_clear key (f.load pkt) n hj)
    exact (h i hi).trans (congrFun hsame i).symm

end Masks

end AuthVideo
