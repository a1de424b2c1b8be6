import AuthVideo.Theorems.ClearPrefix

/-!
# Theorem 42: when the IV stays readable

The forwarder reads the IV of a packet from the payload itself. In a single unit it stands in the 64 bytes that stay clear. In a
fragment it stands at the start of what is left of the unit, of which `skip_remain` bytes stay clear, and these may be fewer than 16.
-/

namespace AuthVideo

open CZuc

/-- None of the 16 bytes of the IV is in the region of the packet that is encrypted. -/
def Span.IvClear (span : Span) (len : Nat) : Prop := ∀ i < 16, ¬(span.start ≤ span.ivAt + i ∧ span.ivAt + i < len)

instance (span : Span) (len : Nat) : Decidable (span.IvClear len) := inferInstanceAs (Decidable (∀ i < 16, _))

/-- The bytes of a region that begins inside the packet are clear of it exactly up to its start. -/
theorem Span.ivClear_iff {span : Span} {len : Nat} (hstart : span.start < len) (hbehind : span.ivAt ≤ span.start) :
    span.IvClear len ↔ span.ivAt + 16 ≤ span.start := by
  constructor
  · intro h
    by_contra hlt
    exact h (span.start - span.ivAt) (by omega) ⟨by omega, by omega⟩
  · intro h i hi hin
    omega

/-- An IV that is clear is found in the packet that goes out. -/
theorem iv_read_back (key : Vector UInt8 32) {skipRemain : Nat} {rtp : Mem} {len : Nat} {span : Span}
    (h : forwardSpan skipRemain rtp len = some span) (hclear : span.IvClear len) :
    ((processRtpPacket key skipRemain rtp len).2).read span.ivAt 16 = rtp.read span.ivAt 16 := by
  refine read_congr ?_
  intro i hfrom hto
  rw [processRtpPacket_zucXor, h, Option.elim_some]
  refine zucXor_outside key ?_
  have hi := hclear (i - span.ivAt) (by omega)
  omega

/-- Theorem 42 (readable IV). Let a call of `process_rtp_packet` encrypt something: the bytes from `span.start` to the end of the
packet, under the 16 bytes at `span.ivAt`. None of these 16 is encrypted exactly when the packet holds a single unit or at least 16
bytes of the fragment stay clear, and then they stand in the packet that goes out as they came in. -/
theorem iv_readable_iff (key : Vector UInt8 32) {skipRemain : Nat} {rtp : Mem} {len : Nat} {span : Span}
    (h : forwardSpan skipRemain rtp len = some span) :
    (processRtpPacket key skipRemain rtp len).2 = zucXor key rtp span.ivAt span.start (len - span.start) ∧
      (span.IvClear len ↔ (IsFu rtp → 16 ≤ skipNow skipRemain (rtp (headerEnd rtp + 2)))) ∧
      (span.IvClear len → ((processRtpPacket key skipRemain rtp len).2).read span.ivAt 16 = rtp.read span.ivAt 16) := by
  have hcall := processRtpPacket_zucXor key skipRemain rtp len
  rw [h, Option.elim_some] at hcall
  have hstart := (forwardSpan_start h).1
  refine ⟨hcall, ?_, iv_read_back key h⟩
  rcases (forwardSpan_cases h).2 with ⟨hfu, rfl⟩ | ⟨hsingle, rfl⟩
  · rw [Span.ivClear_iff hstart (by simp only; omega)]
    simp only [hfu, true_imp_iff]
    omega
  · rw [Span.ivClear_iff hstart (by simp only; omega)]
    simp only [hsingle, false_imp_iff, iff_true]
    omega

/-- The buffer with a packet of a bare header and the fragment of an IDR unit that is not the first one, of 20 bytes. -/
def middleFragment : Mem := Mem.write (fun _ => 0) 0 (fuBytes 0x13 20)

/-- The span of its call when nothing is left to skip. -/
theorem middleFragment_span : forwardSpan 0 middleFragment 35 = some ⟨15, 15⟩ := by
  decide +kernel

/-- Its IV is the first thing that is encrypted. -/
theorem iv_readable_iff_middle :
    (Span.mk 15 15).IvClear 35 ↔ (IsFu middleFragment → 16 ≤ skipNow 0 (middleFragment (headerEnd middleFragment + 2))) :=
  (iv_readable_iff (.replicate 32 0x11) middleFragment_span).2.1

/-- A fragment in the middle of a unit goes out with its IV encrypted. -/
theorem iv_not_readable :
    ¬∀ (skipRemain : Nat) (rtp : Mem) (len : Nat) (span : Span), len ≤ RTP_BUF_SIZE → forwardSpan skipRemain rtp len = some span →
      span.IvClear len := by
  intro hall
  have hclear := hall 0 middleFragment 35 ⟨15, 15⟩ (by decide) middleFragment_span
  exact hclear 0 (by decide) ⟨by decide, by decide⟩

end AuthVideo
