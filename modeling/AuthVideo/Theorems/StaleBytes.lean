import AuthVideo.Theorems.KeystreamReuse
import AuthVideo.Theorems.ClearPrefix

/-!
# Theorem 43: what earlier packets left in the buffer

Behind a packet the buffer holds the bytes of earlier and longer ones. The headers are read only where the packet has them, but the 16
bytes of the IV are read in any case, and a fragment that is encrypted may be shorter than its IV.
-/

namespace AuthVideo

open CZuc

/-! ## Two runs -/

/-- Two memories that hold the same but for what earlier packets left in the buffer behind the first `len` bytes. -/
def SameButStale (len : Nat) (rtp rtp' : Mem) : Prop := ∀ i, i < len ∨ RTP_BUF_SIZE ≤ i → rtp i = rtp' i

/-- The packet holds a fragment that is encrypted, it ends before its IV does, and it does not fill the buffer. -/
structure ShortFragment (skipRemain : Nat) (rtp : Mem) (len : Nat) : Prop where
  fragment : FragmentIn rtp len
  encrypted : headerEnd rtp + 3 + skipNow skipRemain (rtp (headerEnd rtp + 2)) < len
  short : len < headerEnd rtp + 19
  fits : len < RTP_BUF_SIZE

instance (skipRemain : Nat) (rtp : Mem) (len : Nat) : Decidable (ShortFragment skipRemain rtp len) :=
  decidable_of_iff
    (FragmentIn rtp len ∧ headerEnd rtp + 3 + skipNow skipRemain (rtp (headerEnd rtp + 2)) < len ∧ len < headerEnd rtp + 19 ∧
      len < RTP_BUF_SIZE)
    ⟨fun h => ⟨h.1, h.2.1, h.2.2.1, h.2.2.2⟩, fun h => ⟨h.fragment, h.encrypted, h.short, h.fits⟩⟩

section Runs

variable {skipRemain : Nat} {rtp rtp' : Mem} {len : Nat}

theorem SameButStale.agree (h : SameButStale len rtp rtp') : ∀ i < len, rtp i = rtp' i := fun i hi => h i (.inl hi)

/-! ## The headers -/

/-- A span lies behind the header of the unit. -/
theorem headerEnd_lt_of_span {span : Span} (h : forwardSpan skipRemain rtp len = some span) : headerEnd rtp + 2 < len := by
  obtain ⟨hlen, hheaders, -⟩ := forwardSpan_start h
  have htwo : 2 ≤ nalHeaderLen rtp := by
    rw [nalHeaderLen]
    split <;> omega
  omega

/-- A span is read off the packet. -/
theorem forwardSpan_of_agree (h : ∀ i < len, rtp i = rtp' i) {span : Span} (hspan : forwardSpan skipRemain rtp len = some span) :
    forwardSpan skipRemain rtp' len = some span := by
  have hheader := headerEnd_lt_of_span hspan
  have hend : headerEnd rtp' = headerEnd rtp := headerEnd_congr h (by omega)
  have hfirst : rtp (headerEnd rtp) = rtp' (headerEnd rtp) := h _ (by omega)
  have hthird : rtp (headerEnd rtp + 2) = rtp' (headerEnd rtp + 2) := h _ (by omega)
  have hunit : IsFu rtp ↔ IsFu rtp' := by rw [IsFu, IsFu, hend, hfirst]
  have htype : originalType rtp' = originalType rtp := by
    rw [originalType, originalType, hend, hfirst, hthird]
    exact if_congr hunit.symm rfl rfl
  rw [forwardSpan_eq] at hspan ⊢
  rw [htype, hend, ← hthird]
  simpa only [hunit] using hspan

/-- Whether and where a call encrypts is read off the packet. -/
theorem forwardSpan_congr (h : ∀ i < len, rtp i = rtp' i) : forwardSpan skipRemain rtp' len = forwardSpan skipRemain rtp len := by
  cases hspan : forwardSpan skipRemain rtp len with
  | some span => exact forwardSpan_of_agree h hspan
  | none =>
    cases hspan' : forwardSpan skipRemain rtp' len with
    | none => rfl
    | some span =>
      have hback := forwardSpan_of_agree (fun i hi => (h i hi).symm) hspan'
      rw [hspan] at hback
      cases hback

/-- So is what a call leaves of the counter. -/
theorem processRtpPacket_fst_congr (key : Vector UInt8 32) (h : ∀ i < len, rtp i = rtp' i) :
    (processRtpPacket key skipRemain rtp' len).1 = (processRtpPacket key skipRemain rtp len).1 := by
  by_cases hfragment : FragmentIn rtp len
  · obtain ⟨hfragment', hend⟩ := FragmentIn.congr h hfragment
    have hwhole := hfragment.whole
    rw [processRtpPacket_fst_of_fragment key skipRemain hfragment, processRtpPacket_fst_of_fragment key skipRemain hfragment', hend,
      h (headerEnd rtp + 2) (by omega)]
  · have hfragment' : ¬FragmentIn rtp' len := fun h' => hfragment (FragmentIn.congr (fun i hi => (h i hi).symm) h').1
    rw [processRtpPacket_fst_of_not_fragment key skipRemain hfragment,
      processRtpPacket_fst_of_not_fragment key skipRemain hfragment']

/-! ## The IV -/

/-- Outside a short fragment the IV stands in the packet, or nothing is left over behind it. -/
theorem iv_within (hshort : ¬ShortFragment skipRemain rtp len) {span : Span} (h : forwardSpan skipRemain rtp len = some span) :
    span.ivAt + 16 ≤ len ∨ RTP_BUF_SIZE ≤ len := by
  obtain ⟨⟨htype, hlen⟩, ⟨hfu, rfl⟩ | ⟨-, rfl⟩⟩ := forwardSpan_cases h
  · rw [originalType, if_pos hfu] at htype
    dsimp only at hlen ⊢
    by_contra hout
    rw [not_or] at hout
    exact hshort ⟨⟨by omega, hfu, htype⟩, hlen, by omega, by omega⟩
  · dsimp only at hlen ⊢
    omega

/-- There every byte of the IV is the same in both runs. -/
theorem iv_congr (hsame : SameButStale len rtp rtp') (hshort : ¬ShortFragment skipRemain rtp len) {span : Span}
    (h : forwardSpan skipRemain rtp len = some span) : ∀ i, span.ivAt ≤ i → i < span.ivAt + 16 → rtp i = rtp' i := by
  intro i _ hi
  refine hsame i ?_
  rcases iv_within hshort h with hin | hfull <;> omega

/-- The memory with other bytes left over behind the packet. -/
def otherStale (len : Nat) (rtp : Mem) : Mem := fun i => if len ≤ i ∧ i < RTP_BUF_SIZE then rtp i + 1 else rtp i

theorem sameButStale_otherStale (len : Nat) (rtp : Mem) : SameButStale len rtp (otherStale len rtp) := by
  intro i hi
  rw [otherStale, if_neg (by omega)]

/-- In a short fragment they come into the IV. -/
theorem call_of_shortFragment (h : ShortFragment skipRemain rtp len) :
    zucCall skipRemain (otherStale len rtp) len ≠ zucCall skipRemain rtp len := by
  have htype : originalType rtp ∈ iFrameTypes := by
    rw [originalType, if_pos h.fragment.fu]
    exact h.fragment.type
  have hspan := forwardSpan_eq skipRemain rtp len
  rw [if_pos htype, if_pos h.fragment.fu, if_pos h.encrypted] at hspan
  have hencrypted := h.encrypted
  have hshort := h.short
  intro hsame
  rw [zucCall_eq, zucCall_eq, forwardSpan_congr (sameButStale_otherStale len rtp).agree, hspan, Option.map_some, Option.map_some] at hsame
  have hiv : (otherStale len rtp).read (headerEnd rtp + 3) 16 = rtp.read (headerEnd rtp + 3) 16 :=
    congrArg ZucCall.iv (Option.some.inj hsame)
  have hplace : headerEnd rtp + 3 + (len - (headerEnd rtp + 3)) = len := by omega
  have hbyte : (otherStale len rtp) len = rtp len := by
    have hget := List.getElem_of_eq hiv (i := len - (headerEnd rtp + 3)) (by simp; omega)
    rwa [getElem_read, getElem_read, hplace] at hget
  rw [otherStale, if_pos ⟨Nat.le_refl len, h.fits⟩] at hbyte
  have hone : rtp len + 1 = rtp len + 0 := by rw [hbyte, UInt8.add_zero]
  exact absurd ((UInt8.add_right_inj (rtp len)).mp hone) (by decide)

/-! ## The packet -/

/-- The calls of two runs on a packet that is no short fragment. -/
theorem zucCall_congr (hsame : SameButStale len rtp rtp') (hshort : ¬ShortFragment skipRemain rtp len) :
    zucCall skipRemain rtp' len = zucCall skipRemain rtp len := by
  rw [zucCall_eq, zucCall_eq, forwardSpan_congr hsame.agree]
  cases hspan : forwardSpan skipRemain rtp len with
  | none => rfl
  | some span =>
    have hstart := (forwardSpan_start hspan).1
    have hiv : rtp'.read span.ivAt 16 = rtp.read span.ivAt 16 := (read_congr (iv_congr hsame hshort hspan)).symm
    have hplain : rtp'.read span.start (len - span.start) = rtp.read span.start (len - span.start) :=
      (read_congr fun i _ hi => hsame.agree i (by omega)).symm
    rw [Option.map_some, Option.map_some, Span.call, Span.call, hiv, hplain]

/-- The packets that two runs leave of one that is no short fragment. -/
theorem processRtpPacket_snd_congr (key : Vector UInt8 32) (hsame : SameButStale len rtp rtp')
    (hshort : ¬ShortFragment skipRemain rtp len) :
    ∀ i < len, (processRtpPacket key skipRemain rtp' len).2 i = (processRtpPacket key skipRemain rtp len).2 i := by
  intro i hi
  rw [processRtpPacket_snd, processRtpPacket_snd, forwardSpan_congr hsame.agree]
  dsimp only
  rw [hsame.agree i hi]
  cases hspan : forwardSpan skipRemain rtp len with
  | none => rfl
  | some span => rw [maskOf_congr key (iv_congr hsame hshort hspan)]

end Runs

/-- Theorem 43 (stale bytes). For every packet and every value of `skip_remain`: what earlier packets left in the buffer never matters
for `skip_remain`; it does not come into the call of the cipher exactly when the packet is no short fragment, and then it does not
matter for the packet either. -/
theorem stale_bytes_iff (key : Vector UInt8 32) (skipRemain : Nat) (rtp : Mem) (len : Nat) :
    (∀ rtp', SameButStale len rtp rtp' →
      (processRtpPacket key skipRemain rtp' len).1 = (processRtpPacket key skipRemain rtp len).1) ∧
      ((∀ rtp', SameButStale len rtp rtp' → zucCall skipRemain rtp' len = zucCall skipRemain rtp len) ↔
        ¬ShortFragment skipRemain rtp len) ∧
      (¬ShortFragment skipRemain rtp len → ∀ rtp', SameButStale len rtp rtp' →
        ∀ i < len, (processRtpPacket key skipRemain rtp' len).2 i = (processRtpPacket key skipRemain rtp len).2 i) := by
  refine ⟨fun rtp' hsame => processRtpPacket_fst_congr key hsame.agree, ⟨?_, ?_⟩, ?_⟩
  · intro hall hshort
    exact call_of_shortFragment hshort (hall _ (sameButStale_otherStale len rtp))
  · intro hshort rtp' hsame
    exact zucCall_congr hsame hshort
  · intro hshort rtp' hsame
    exact processRtpPacket_snd_congr key hsame hshort

/-- A fragment of five bytes, over a buffer of zeros and over one that earlier packets left full of ones. -/
theorem stale_bytes_matter :
    ¬∀ (key : Vector UInt8 32) (skipRemain : Nat) (rtp rtp' : Mem) (len : Nat), 0 < len → len ≤ RTP_BUF_SIZE →
      SameButStale len rtp rtp' →
        (processRtpPacket key skipRemain rtp' len).1 = (processRtpPacket key skipRemain rtp len).1 ∧
          ∀ i < len, (processRtpPacket key skipRemain rtp' len).2 i = (processRtpPacket key skipRemain rtp len).2 i := by
  intro hall
  have hsame : SameButStale 20 (Mem.write (fun _ => 0) 0 (fuBytes 0x13 5))
      (Mem.write (fun i => if i < RTP_BUF_SIZE then 1 else 0) 0 (fuBytes 0x13 5)) := by
    have hlen : (fuBytes 0x13 5).length = 20 := by decide
    intro i hi
    rcases hi with hi | hi
    · rw [write_apply _ (by omega), write_apply _ (by omega)]
    · have hfull : RTP_BUF_SIZE = 1600 := rfl
      have hout : ∀ d : UInt8, (fuBytes 0x13 5).getD (i - 0) d = d := fun d => List.getD_eq_default _ _ (by omega)
      simp only [Mem.write, Nat.zero_le, if_true, hout, if_neg (by omega : ¬i < RTP_BUF_SIZE)]
  have hbyte := (hall (.replicate 32 0x11) 0 _ _ 20 (by decide) (by decide) hsame).2 15 (by decide)
  revert hbyte
  decide +kernel

end AuthVideo
