import AuthVideo.Lemmas.RtpHeader

/-!
# Theorem 40: what the RTP encryptor leaves alone

Whatever the CSRC list and the extension say and whatever an earlier packet left in `skip_remain`, a call writes behind the headers
and inside the packet, and to I-frames only.
-/

namespace AuthVideo

/-- What a call leaves alone in a packet of some length. -/
structure LeavesAlone (rtp out : Mem) (len : Nat) : Prop where
  behind : ∀ i, len ≤ i → out i = rtp i
  headers : ∀ i < headerEnd rtp + nalHeaderLen rtp, out i = rtp i
  others : originalType rtp ∉ iFrameTypes → out = rtp
  clear : ¬IsFu rtp → ∀ i < headerEnd rtp + 66, out i = rtp i

/-- A call that writes nothing leaves everything alone. -/
theorem leavesAlone_refl (rtp : Mem) (len : Nat) : LeavesAlone rtp rtp len :=
  ⟨fun _ _ => rfl, fun _ _ => rfl, fun _ => rfl, fun _ _ _ => rfl⟩

/-- Theorem 40 (RTP frame law). For every content of the buffer, every length and every value of `skip_remain`, `process_rtp_packet`
writes inside the packet only, leaves the RTP header and the header of the unit or of the fragment, changes nothing in a packet of
another type, and leaves the first 66 bytes of a single unit. -/
theorem process_rtp_packet_frame (key : Vector UInt8 32) (skipRemain : Nat) (rtp : Mem) (len : Nat) :
    LeavesAlone rtp (processRtpPacket key skipRemain rtp len).2 len := by
  rw [processRtpPacket_zucXor]
  cases hspan : forwardSpan skipRemain rtp len with
  | none => exact leavesAlone_refl rtp len
  | some span =>
    obtain ⟨-, hheaders, htype, hclear⟩ := forwardSpan_start hspan
    constructor
    · intro i hi
      exact zucXor_outside key (.inr hi)
    · intro i hi
      exact zucXor_outside key (.inl (Nat.lt_of_lt_of_le hi hheaders))
    · intro hother
      exact absurd htype hother
    · intro hsingle i hi
      exact zucXor_outside key (.inl (Nat.lt_of_lt_of_le hi (hclear hsingle)))

end AuthVideo
