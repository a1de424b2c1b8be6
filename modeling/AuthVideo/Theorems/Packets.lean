import AuthVideo.Lemmas.Packets

/-!
# Theorem 39: when a packet comes back

The decryption cuts the encrypted packet again, and all units share one keystream. So the packet comes back exactly when the
keystream, laid over the payloads, forms no start code and breaks none.
-/

namespace AuthVideo

open Segments

/-- The mask of a packet forms no start code and breaks none. -/
def KeepsPacketCodes (packetBytes key32 iv16 : Bytes) : Prop :=
  findStartCodes (xorBytes packetBytes (packetMask (splitAnnexbNals packetBytes) (TimeZuc.initState key32 iv16))) =
    findStartCodes packetBytes

instance (packetBytes key32 iv16 : Bytes) : Decidable (KeepsPacketCodes packetBytes key32 iv16) :=
  inferInstanceAs (Decidable (_ = _))

/-- A key of 32 bytes and an IV of 16 are taken. -/
theorem timeZuc_ok {key32 iv16 : Bytes} (hkey : key32.length = 32) (hiv : iv16.length = 16) :
    TimeZuc.ZUC256 key32 iv16 = .ok (TimeZuc.initState key32 iv16) := by
  rw [TimeZuc.ZUC256, if_neg (by omega), if_neg (by omega)]

/-- What the check compares with the packet. -/
theorem syncCheck_eq {key32 iv16 : Bytes} (hkey : key32.length = 32) (hiv : iv16.length = 16) (packetBytes : Bytes) :
    syncCheck packetBytes key32 iv16 =
      .ok (join (maskNals (splitAnnexbNals (join (maskNals (splitAnnexbNals packetBytes) (TimeZuc.initState key32 iv16))))
        (TimeZuc.initState key32 iv16))) := by
  have hpass : ∀ data, encryptHevcPacketSelective data key32 iv16 =
      .ok (encryptNals (splitAnnexbNals data) (TimeZuc.initState key32 iv16)) := by
    intro data
    rw [encryptHevcPacketSelective, timeZuc_ok hkey hiv]
    rfl
  rw [syncCheck, hpass, ok_bind, decryptHevcPacketSelective, hpass, ok_bind, encryptNals_fst, encryptNals_fst]
  rfl

/-- Theorem 39 (packets). A packet that begins with a start code comes back from the decryption exactly when the mask leaves what
`find_start_codes` finds unchanged. -/
theorem sync_ok_iff {packetBytes key32 iv16 : Bytes} (hbegin : BeginsWithStartCode packetBytes) (hkey : key32.length = 32)
    (hiv : iv16.length = 16) :
    syncCheck packetBytes key32 iv16 = .ok packetBytes ↔ KeepsPacketCodes packetBytes key32 iv16 := by
  have hmask : join (maskNals (splitAnnexbNals packetBytes) (TimeZuc.initState key32 iv16)) =
      xorBytes packetBytes (packetMask (splitAnnexbNals packetBytes) (TimeZuc.initState key32 iv16)) := by
    rw [join_maskNals, join_splitAnnexbNals hbegin]
  have hpasses := pass_pass_eq_iff (sameShape_maskNals (TimeZuc.initState key32 iv16))
    (sameShape_maskNals (TimeZuc.initState key32 iv16)) hbegin
  rw [maskNals_maskNals, and_iff_left rfl] at hpasses
  rw [syncCheck_eq hkey hiv, Except.ok.injEq, hpasses, hmask, KeepsPacketCodes]

/-- An IDR unit of one byte comes back. -/
theorem sync_ok_iff_idr : syncCheck [0, 0, 0, 1, 0x26, 0x01, 0x80] (List.replicate 32 0x11) (List.replicate 16 0) =
    .ok [0, 0, 0, 1, 0x26, 0x01, 0x80] :=
  (sync_ok_iff (.inl (by decide)) (by decide) (by decide)).mpr (by decide +kernel)

/-- A payload that is encrypted to `00 00 01 80 80` does not come back. -/
theorem sync_lost : ¬∀ packetBytes key32 iv16 : Bytes, BeginsWithStartCode packetBytes → key32.length = 32 → iv16.length = 16 →
    syncCheck packetBytes key32 iv16 = .ok packetBytes := by
  intro h
  have hback := h [0, 0, 0, 1, 0x26, 0x01, 0x6d, 0x15, 0x50, 0x79, 0x5e] (List.replicate 32 0x11) (List.replicate 16 0)
    (.inl (by decide)) (by decide) (by decide)
  have hlost : syncCheck [0, 0, 0, 1, 0x26, 0x01, 0x6d, 0x15, 0x50, 0x79, 0x5e] (List.replicate 32 0x11) (List.replicate 16 0) =
      .ok [0, 0, 0, 1, 0x26, 0x01, 0, 0, 1, 0x80, 0x80] := by decide +kernel
  rw [hlost, Except.ok.injEq] at hback
  exact absurd hback (by decide)

end AuthVideo
