import AuthVideo.Lemmas.Rtp

/-!
# Where a packet is written to

The header of a packet ends where its own fields say, and only a fragment of an I-frame moves `skip_remain`. What a call hands to the
cipher begins behind the headers and ends with the packet.
-/

namespace AuthVideo

open CZuc

/-! ## The headers -/

/-- Where the CSRC list ends. -/
def csrcEnd (rtp : Mem) : Nat := 12 + 4 * (rtp 0 &&& 0x0F).toNat

/-- Where the RTP header ends: the fixed part, the CSRC list and, where the X bit announces one, the extension with its own length. -/
def headerEnd (rtp : Mem) : Nat :=
  if (rtp 0 >>> 4) &&& 0x01 ≠ 0 then csrcEnd rtp + 4 + 4 * (256 * (rtp (csrcEnd rtp + 2)).toNat + (rtp (csrcEnd rtp + 3)).toNat)
  else csrcEnd rtp

/-- The packet holds a fragment of a unit. -/
def IsFu (rtp : Mem) : Prop := hevcNaluType (rtp (headerEnd rtp)) = 49

instance (rtp : Mem) : Decidable (IsFu rtp) := inferInstanceAs (Decidable (_ = _))

/-- The type of the unit, or of the unit that the fragment was cut from. -/
def originalType (rtp : Mem) : UInt8 :=
  if IsFu rtp then rtp (headerEnd rtp + 2) &&& 0x3F else hevcNaluType (rtp (headerEnd rtp))

/-- The length of the header of the unit, that of a fragment included. -/
def nalHeaderLen (rtp : Mem) : Nat := if IsFu rtp then 3 else 2

/-- `rtp_header_len` reads the header. -/
theorem rtpHeaderLen_eq (rtp : Mem) (len : Nat) : rtpHeaderLen rtp len = if len < 12 then none else some (headerEnd rtp) := by
  have hcsrc : 12 + (rtp 0 &&& 0x0F).toNat * 4 = csrcEnd rtp := by rw [csrcEnd, Nat.mul_comm]
  have hword : ∀ a b : UInt8, a.toNat <<< 8 ||| b.toNat = 256 * a.toNat + b.toNat := by
    intro a b
    rw [← Nat.shiftLeft_add_eq_or_of_lt b.toNat_lt, Nat.shiftLeft_eq, Nat.mul_comm]
  simp only [rtpHeaderLen, headerEnd, hcsrc, hword]
  split
  · rfl
  · split
    · congr 1
      omega
    · rfl

theorem twelve_le_headerEnd (rtp : Mem) : 12 ≤ headerEnd rtp := by
  rw [headerEnd, csrcEnd]
  split <;> omega

/-- A header that ends inside the packet is read from the packet. -/
theorem headerEnd_congr {m m' : Mem} {n : Nat} (h : ∀ i < n, m i = m' i) (hend : headerEnd m ≤ n) : headerEnd m' = headerEnd m := by
  have hpos : 0 < n := Nat.lt_of_lt_of_le (by decide) ((twelve_le_headerEnd m).trans hend)
  have hcsrc : csrcEnd m' = csrcEnd m := by rw [csrcEnd, csrcEnd, h 0 hpos]
  rw [headerEnd] at hend
  rw [headerEnd, headerEnd, hcsrc, ← h 0 hpos]
  split
  · rename_i hx
    rw [if_pos hx] at hend
    rw [h (csrcEnd m + 2) (by omega), h (csrcEnd m + 3) (by omega)]
  · rfl

/-! ## The calls of the cipher -/

/-- What `process_rtp_packet` does to the packet: one call of the cipher on the span, up to the end of the packet, or nothing. -/
theorem processRtpPacket_zucXor (key : Vector UInt8 32) (skipRemain : Nat) (rtp : Mem) (len : Nat) :
    (processRtpPacket key skipRemain rtp len).2 = (forwardSpan skipRemain rtp len).elim rtp fun span =>
      zucXor key rtp span.ivAt span.start (len - span.start) := by
  rw [processRtpPacket_snd]
  cases forwardSpan skipRemain rtp len with
  | none => exact xor_maskOf_none key rtp len
  | some span => exact (zucXor_eq key span).symm

/-- The cipher writes inside its span only. -/
theorem zucXor_outside (key : Vector UInt8 32) {rtp : Mem} {len : Nat} {span : Span} {i : Nat} (hi : i < span.start ∨ len ≤ i) :
    zucXor key rtp span.ivAt span.start (len - span.start) i = rtp i := by
  have hmask : maskOf key rtp len (some span) i = 0 := by
    simp only [maskOf]
    split
    · refine List.getD_eq_default _ _ ?_
      rw [length_zuc256Keystream]
      omega
    · rfl
  rw [zucXor_eq]
  simp only [hmask, UInt8.xor_zero]

/-- The span of a call. -/
theorem forwardSpan_eq (skipRemain : Nat) (rtp : Mem) (len : Nat) :
    forwardSpan skipRemain rtp len =
      if originalType rtp ∈ iFrameTypes then
        if IsFu rtp then
          if headerEnd rtp + 3 + skipNow skipRemain (rtp (headerEnd rtp + 2)) < len then
            some ⟨headerEnd rtp + 3, headerEnd rtp + 3 + skipNow skipRemain (rtp (headerEnd rtp + 2))⟩
          else none
        else if headerEnd rtp + 66 < len then some ⟨headerEnd rtp + 2, headerEnd rtp + 66⟩
        else none
      else none := by
  have hheader := twelve_le_headerEnd rtp
  by_cases hfixed : len < 12
  · have hnone : forwardSpan skipRemain rtp len = none := by
      rw [forwardSpan, rtpHeaderLen_eq, if_pos hfixed]
    rw [hnone, if_neg (by omega : ¬headerEnd rtp + 66 < len), if_neg (by omega : ¬headerEnd rtp + 3 + _ < len), ite_self, ite_self]
  · have hspan : forwardSpan skipRemain rtp len =
        if len ≤ headerEnd rtp + 2 then none
        else if ¬IsFu rtp then
          if hevcNaluType (rtp (headerEnd rtp)) ∈ iFrameTypes ∧ headerEnd rtp + 66 < len then
            some ⟨headerEnd rtp + 2, headerEnd rtp + 66⟩ else none
        else
          if rtp (headerEnd rtp + 2) &&& 0x3F ∈ iFrameTypes ∧
              headerEnd rtp + 3 + skipNow skipRemain (rtp (headerEnd rtp + 2)) < len then
            some ⟨headerEnd rtp + 3, headerEnd rtp + 3 + skipNow skipRemain (rtp (headerEnd rtp + 2))⟩
          else none := by
      rw [forwardSpan, rtpHeaderLen_eq, if_neg hfixed]
      rfl
    rw [hspan, originalType]
    by_cases hunit : IsFu rtp
    · rw [if_neg (not_not.mpr hunit), if_pos hunit, if_pos hunit, ← ite_and]
      split
      · rename_i hshort
        rw [if_neg fun h => by omega]
      · rfl
    · rw [if_pos hunit, if_neg hunit, if_neg hunit, ← ite_and]
      split
      · rename_i hshort
        rw [if_neg fun h => by omega]
      · rfl

/-- What a span can be: that of a fragment of an I-frame, or that of a single unit of one. Something is left to encrypt behind its
start. -/
theorem forwardSpan_cases {skipRemain : Nat} {rtp : Mem} {len : Nat} {span : Span}
    (h : forwardSpan skipRemain rtp len = some span) :
    (originalType rtp ∈ iFrameTypes ∧ span.start < len) ∧
      ((IsFu rtp ∧ span = ⟨headerEnd rtp + 3, headerEnd rtp + 3 + skipNow skipRemain (rtp (headerEnd rtp + 2))⟩) ∨
        (¬IsFu rtp ∧ span = ⟨headerEnd rtp + 2, headerEnd rtp + 66⟩)) := by
  rw [forwardSpan_eq] at h
  split at h
  · rename_i htype
    split at h
    · rename_i hfu
      split at h
      · rename_i hlen
        cases h
        exact ⟨⟨htype, hlen⟩, .inl ⟨hfu, rfl⟩⟩
      · cases h
    · rename_i hsingle
      split at h
      · rename_i hlen
        cases h
        exact ⟨⟨htype, hlen⟩, .inr ⟨hsingle, rfl⟩⟩
      · cases h
  · cases h

/-- Where a span begins. -/
theorem forwardSpan_start {skipRemain : Nat} {rtp : Mem} {len : Nat} {span : Span}
    (h : forwardSpan skipRemain rtp len = some span) :
    span.start < len ∧ headerEnd rtp + nalHeaderLen rtp ≤ span.start ∧ originalType rtp ∈ iFrameTypes ∧
      (¬IsFu rtp → headerEnd rtp + 66 ≤ span.start) := by
  obtain ⟨⟨htype, hlen⟩, ⟨hfu, rfl⟩ | ⟨hsingle, rfl⟩⟩ := forwardSpan_cases h
  · refine ⟨hlen, ?_, htype, fun hsingle => absurd hfu hsingle⟩
    simp only [nalHeaderLen, if_pos hfu]
    omega
  · refine ⟨hlen, ?_, htype, fun _ => Nat.le_refl _⟩
    simp only [nalHeaderLen, if_neg hsingle]
    omega

/-! ## The counter -/

/-- The packet holds a fragment of an I-frame, with its header. -/
structure FragmentIn (rtp : Mem) (len : Nat) : Prop where
  whole : headerEnd rtp + 3 ≤ len
  fu : IsFu rtp
  type : rtp (headerEnd rtp + 2) &&& 0x3F ∈ iFrameTypes

instance (rtp : Mem) (len : Nat) : Decidable (FragmentIn rtp len) :=
  decidable_of_iff (headerEnd rtp + 3 ≤ len ∧ IsFu rtp ∧ rtp (headerEnd rtp + 2) &&& 0x3F ∈ iFrameTypes)
    ⟨fun h => ⟨h.1, h.2.1, h.2.2⟩, fun h => ⟨h.whole, h.fu, h.type⟩⟩

/-- Whether it does is read from the packet. -/
theorem FragmentIn.congr {m m' : Mem} {len : Nat} (h : ∀ i < len, m i = m' i) (hm : FragmentIn m len) :
    FragmentIn m' len ∧ headerEnd m' = headerEnd m := by
  have hwhole := hm.whole
  have hend : headerEnd m' = headerEnd m := headerEnd_congr h (by omega)
  refine ⟨⟨by rw [hend]; exact hwhole, ?_, ?_⟩, hend⟩
  · rw [IsFu, hend, ← h _ (by omega)]
    exact hm.fu
  · rw [hend, ← h _ (by omega)]
    exact hm.type

/-- The branch of the fragments takes what it leaves clear off the counter. -/
theorem fragment_fst (key : Vector UInt8 32) (skipNow : Nat) (rtp : Mem) (len hdrLen skip : Nat)
    (hskip : skip = if skipNow > 0 then if len - hdrLen - 3 < skipNow then len - hdrLen - 3 else skipNow else 0) :
    (if len - hdrLen - 3 - skip ≤ 0 then (skipNow - skip, rtp)
      else (skipNow - skip, zucXor key rtp (hdrLen + 3) (hdrLen + 3 + skip) (len - hdrLen - 3 - skip))).1 =
      skipNow - (len - (hdrLen + 3)) := by
  have hleft : skipNow - skip = skipNow - (len - (hdrLen + 3)) := by
    rw [hskip]
    split_ifs <;> omega
  rw [apply_ite Prod.fst, ite_self, hleft]

/-- A fragment of an I-frame takes its payload off the counter. -/
theorem processRtpPacket_fst_of_fragment (key : Vector UInt8 32) (skipRemain : Nat) {rtp : Mem} {len : Nat}
    (h : FragmentIn rtp len) :
    (processRtpPacket key skipRemain rtp len).1 =
      skipNow skipRemain (rtp (headerEnd rtp + 2)) - (len - (headerEnd rtp + 3)) := by
  have hwhole := h.whole
  have hheader : rtpHeaderLen rtp len = some (headerEnd rtp) := by
    rw [rtpHeaderLen_eq, if_neg]
    have := twelve_le_headerEnd rtp
    omega
  have hfu : ¬(rtp (headerEnd rtp) >>> 1) &&& 0x3F ≠ 49 := not_not.mpr h.fu
  unfold processRtpPacket
  simp only [hheader, if_neg (by omega : ¬len ≤ headerEnd rtp + 2), if_neg hfu, if_neg (by omega : ¬len - headerEnd rtp < 3),
    h.type, not_true_eq_false, if_false]
  exact fragment_fst key (skipNow skipRemain (rtp (headerEnd rtp + 2))) rtp len (headerEnd rtp) _ rfl

/-- Every other packet leaves the counter. -/
theorem processRtpPacket_fst_of_not_fragment (key : Vector UInt8 32) (skipRemain : Nat) {rtp : Mem} {len : Nat}
    (h : ¬FragmentIn rtp len) : (processRtpPacket key skipRemain rtp len).1 = skipRemain := by
  unfold processRtpPacket
  rw [rtpHeaderLen_eq]
  by_cases hfixed : len < 12
  · rw [if_pos hfixed]
  · simp only [if_neg hfixed]
    by_cases hshort : len ≤ headerEnd rtp + 2
    · rw [if_pos hshort]
    · rw [if_neg hshort]
      by_cases hfu : (rtp (headerEnd rtp) >>> 1) &&& 0x3F ≠ 49
      · rw [if_pos hfu]
        split_ifs <;> rfl
      · have htype : rtp (headerEnd rtp + 2) &&& 0x3F ∉ iFrameTypes := by
          intro htype
          exact h ⟨by omega, not_not.mp hfu, htype⟩
        rw [if_neg hfu, if_pos htype, ite_self]

end AuthVideo
