import AuthVideo.Lemmas.Passes

/-!
# Theorems 15 and 16: when the I-frame encryption is undone

The second pass parses masked bytes. A start code that the mask forms moves the boundaries of the units, and the decryptor of
`test6.py` gives a unit the same index as the encryptor only while every unit before it is masked.
-/

namespace AuthVideo

section Theorems

variable (H : Sha256) (key : Bytes)

/-- The mask that `hevc_xor_i_only` lays over a stream. -/
def Sha256.encMask (skip : Nat) (data : Bytes) : Bytes :=
  H.keystreamMask key skip (units data) (unitIndices skip encNext data)

/-- The indices of the masked units fit into the 32 bits that the key derivation packs them into. -/
def EncIndicesFit (skip : Nat) (data : Bytes) : Prop := IndicesFit skip (units data) (unitIndices skip encNext data)

/-- The positions of the masked units fit as well. -/
def DecIndicesFit (skip : Nat) (data : Bytes) : Prop := IndicesFit skip (units data) (unitIndices skip decNext data)

/-- The mask forms no start code and breaks none. -/
def Sha256.KeepsStartCodes (skip : Nat) (data : Bytes) : Prop :=
  findStartCodes (xorBytes data (H.encMask key skip data)) = findStartCodes data

/-- Each masked unit has one keystream, under its index among the masked units and under its index among all units. -/
def Sha256.KeepsKeystreams (skip : Nat) (data : Bytes) : Prop :=
  H.SameKeystreams key skip (units data) (unitIndices skip encNext data) (unitIndices skip decNext data)

instance (skip : Nat) (data : Bytes) : Decidable (EncIndicesFit skip data) := inferInstanceAs (Decidable (IndicesFit _ _ _))

instance (skip : Nat) (data : Bytes) : Decidable (DecIndicesFit skip data) := inferInstanceAs (Decidable (IndicesFit _ _ _))

instance (skip : Nat) (data : Bytes) : Decidable (H.KeepsStartCodes key skip data) := inferInstanceAs (Decidable (_ = _))

instance (skip : Nat) (data : Bytes) : Decidable (H.KeepsKeystreams key skip data) :=
  inferInstanceAs (Decidable (H.SameKeystreams _ _ _ _ _))

/-- Theorem 15 (decryption). On a stream that begins with a start code and has no short unit, `hevc_xor_i_only_dec` undoes
`hevc_xor_i_only` exactly when the stream is longer than a bare start code, the indices fit, the mask keeps the start codes,
and the two loops derive one keystream for each masked unit. -/
theorem hevc_dec_enc_iff {skip : Nat} (hskip : 32 ≤ skip) {data : Bytes} (hbegin : BeginsWithStartCode data)
    (hlong : UnitsLong data) :
    (H.hevcXorIOnly key skip data >>= H.hevcXorIOnlyDec key skip) = .ok data ↔
      3 < data.length ∧ EncIndicesFit skip data ∧ DecIndicesFit skip data ∧ H.KeepsStartCodes key skip data ∧
        H.KeepsKeystreams key skip data := by
  rw [hevcXorIOnly_eq, hevcXorIOnlyDec_eq]
  exact pass_pass_iff hskip hbegin hlong

/-- Theorem 16 (self-inverse). On a stream that begins with a start code and has no short unit, `hevc_xor_i_only` undoes itself
exactly when the stream is longer than a bare start code, the indices fit, and the mask keeps the start codes. -/
theorem hevc_enc_enc_iff {data : Bytes} (hbegin : BeginsWithStartCode data) (hlong : UnitsLong data) :
    (H.hevcXorIOnly key 64 data >>= H.hevcXorIOnly key 64) = .ok data ↔
      3 < data.length ∧ EncIndicesFit 64 data ∧ H.KeepsStartCodes key 64 data := by
  rw [hevcXorIOnly_eq, pass_pass_iff (by decide) hbegin hlong]
  constructor
  · rintro ⟨hlen, hfit, -, hcodes, -⟩
    exact ⟨hlen, hfit, hcodes⟩
  · rintro ⟨hlen, hfit, hcodes⟩
    exact ⟨hlen, hfit, hfit, hcodes, sameKeystreams_self _ _⟩

/-- A stream of which every unit is masked keeps its keystreams. -/
theorem keepsKeystreams_of_masked {skip : Nat} {data : Bytes} (h : ∀ p ∈ units data, Masked skip p.2) :
    H.KeepsKeystreams key skip data := by
  rw [Sha256.KeepsKeystreams, unitIndices, unitIndices, indices_of_masked h]
  exact sameKeystreams_self _ _

end Theorems

/-! ## Streams on which they hold and fail -/

/-- The bytes of a number, the highest first. -/
def beBytes (n w : Nat) : Bytes := (List.range n).map fun k => .ofNat (w >>> (8 * (n - 1 - k)))

/-- The master key of `test6.py`. -/
def sampleKey : Bytes := List.replicate 32 0x11

/-- The first bytes of the sample payloads. -/
def sampleFeat : Bytes := List.replicate 32 0x80

/-- The digests that the sample streams need, and zero elsewhere. -/
def sampleSha256 : Sha256 where
  digest m := beBytes 32 <|
    if m = sampleKey ++ sampleFeat ++ [0, 0, 0, 0] then 0xca6a5ca1346caf32261a41ec9345794653ee729e72875e5e53fd0a3a5b1e7b09
    else if m = sampleFeat ++ [0, 0, 0, 0] ++ sampleKey then
      0x297b86f6b73b841431f3f8df859f497386731635f11f0b903265c0f355b84ad4
    else if m = sampleKey ++ sampleFeat ++ [0, 0, 0, 1] then
      0xa9189f16be1190136a1effdf99fbed44c648ab7a57f8e3b41f28b3577a13fa5c
    else if m = sampleFeat ++ [0, 0, 0, 1] ++ sampleKey then
      0x3d324876a75df049a0c2c3002df4de82d2c247f5151d3b0e3a9acef662376184
    else 0
  length_digest m := by simp [beBytes]

/-- An IDR unit with a payload of 64 bytes and a body. -/
def sampleUnit (body : Bytes) : Bytes := START4 ++ [0x26, 0x01] ++ List.replicate 64 0x80 ++ body

/-- A stream of one IDR unit comes back from the decryptor. -/
theorem hevc_dec_enc_iff_idr :
    (sampleSha256.hevcXorIOnly sampleKey 64 (sampleUnit [0x80]) >>= sampleSha256.hevcXorIOnlyDec sampleKey 64) =
      .ok (sampleUnit [0x80]) :=
  (hevc_dec_enc_iff sampleSha256 sampleKey (by decide) (.inl (by decide +kernel)) (by decide +kernel)).mpr
    ⟨by decide +kernel, by decide +kernel, by decide +kernel, by decide +kernel,
      keepsKeystreams_of_masked sampleSha256 sampleKey (by decide +kernel)⟩

/-- A stream of a parameter set and an IDR unit does not: the IDR unit is the first that is masked and the second of all. -/
theorem hevc_dec_enc_vps :
    BeginsWithStartCode (START4 ++ [0x40, 0x01] ++ sampleUnit [0x80]) ∧
      UnitsLong (START4 ++ [0x40, 0x01] ++ sampleUnit [0x80]) ∧
      (sampleSha256.hevcXorIOnly sampleKey 64 (START4 ++ [0x40, 0x01] ++ sampleUnit [0x80]) >>=
        sampleSha256.hevcXorIOnlyDec sampleKey 64) ≠ .ok (START4 ++ [0x40, 0x01] ++ sampleUnit [0x80]) := by
  have hbegin : BeginsWithStartCode (START4 ++ [0x40, 0x01] ++ sampleUnit [0x80]) := .inl (by decide +kernel)
  have hlong : UnitsLong (START4 ++ [0x40, 0x01] ++ sampleUnit [0x80]) := by decide +kernel
  have hkeystreams : ¬sampleSha256.KeepsKeystreams sampleKey 64 (START4 ++ [0x40, 0x01] ++ sampleUnit [0x80]) := by
    decide +kernel
  refine ⟨hbegin, hlong, ?_⟩
  rw [hevcXorIOnly_eq, hevcXorIOnlyDec_eq, ne_eq, pass_pass_iff (by decide) hbegin hlong]
  rintro ⟨-, -, -, -, hsame⟩
  exact hkeystreams hsame

/-- A stream of one IDR unit comes back from a second encryption. -/
theorem hevc_enc_enc_iff_idr :
    (sampleSha256.hevcXorIOnly sampleKey 64 (sampleUnit [0x80]) >>= sampleSha256.hevcXorIOnly sampleKey 64) =
      .ok (sampleUnit [0x80]) :=
  (hevc_enc_enc_iff sampleSha256 sampleKey (.inl (by decide +kernel)) (by decide +kernel)).mpr
    ⟨by decide +kernel, by decide +kernel, by decide +kernel⟩

/-- A stream whose masked body reads `00 00 01 80 80` does not: the second encryption ends the unit there. -/
theorem hevc_enc_enc_start_code :
    BeginsWithStartCode (sampleUnit [0x85, 0x0d, 0x98, 0x3b, 0x6f]) ∧ UnitsLong (sampleUnit [0x85, 0x0d, 0x98, 0x3b, 0x6f]) ∧
      (sampleSha256.hevcXorIOnly sampleKey 64 (sampleUnit [0x85, 0x0d, 0x98, 0x3b, 0x6f]) >>=
        sampleSha256.hevcXorIOnly sampleKey 64) ≠ .ok (sampleUnit [0x85, 0x0d, 0x98, 0x3b, 0x6f]) := by
  have hbegin : BeginsWithStartCode (sampleUnit [0x85, 0x0d, 0x98, 0x3b, 0x6f]) := .inl (by decide +kernel)
  have hlong : UnitsLong (sampleUnit [0x85, 0x0d, 0x98, 0x3b, 0x6f]) := by decide +kernel
  have hcodes : ¬sampleSha256.KeepsStartCodes sampleKey 64 (sampleUnit [0x85, 0x0d, 0x98, 0x3b, 0x6f]) := by
    decide +kernel
  refine ⟨hbegin, hlong, ?_⟩
  rw [hevcXorIOnly_eq, ne_eq, pass_pass_iff (by decide) hbegin hlong]
  rintro ⟨-, -, -, hsame, -⟩
  exact hcodes hsame

end AuthVideo
