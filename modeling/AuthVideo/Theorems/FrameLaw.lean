import AuthVideo.Theorems.IFrames

/-!
# Theorem 17: what the I-frame encryption leaves alone

The encryptor writes one entry for each unit that it reads. Its index counts the units that it encrypts and is packed into 32 bits,
so a stream with more than `2 ^ 32` of them makes it raise.
-/

namespace AuthVideo

open Segments

/-! ## The law -/

/-- A unit that is encrypted: of the types 19, 20 and 21, with more payload than is left clear. -/
def Encrypted (skip : Nat) (nalu : Bytes) : Prop := hevcNalUnitType nalu ∈ iOnlyTypes ∧ skip < nalu.length - 2

instance (skip : Nat) (nalu : Bytes) : Decidable (Encrypted skip nalu) := inferInstanceAs (Decidable (_ ∧ _))

/-- The number of encrypted units. -/
def encryptedCount (skip : Nat) (ps : List (Bytes × Bytes)) : Nat := ps.countP fun p => Encrypted skip p.2

/-- A unit `out` for an encrypted unit: the first bytes are kept, and each of the others is masked with the byte of the keystream that
the key derivation gives for the index and the first bytes of the payload. -/
def Sha256.EncryptedAs (H : Sha256) (key : Bytes) (skip i : Nat) (nalu out : Bytes) : Prop :=
  ∃ key32 iv16 ks, H.kdfKeyIv key (extractFeat32 nalu) i = .ok (key32, iv16) ∧
    PyZuc.zuc256Keystream key32 iv16 (nalu.length - (2 + skip)) = .ok ks ∧ ks.length = nalu.length - (2 + skip) ∧
    out.take (2 + skip) = nalu.take (2 + skip) ∧
    ∀ j, 2 + skip + j < nalu.length → out.getD (2 + skip + j) 0 = nalu.getD (2 + skip + j) 0 ^^^ ks.getD j 0

/-- What is written for what was read: as many entries, in order, with the same start codes and lengths, and the same units but for
the encrypted ones. -/
structure Sha256.FrameLaw (H : Sha256) (key : Bytes) (skip : Nat) (ps out : List (Bytes × Bytes)) : Prop where
  length_eq : out.length = ps.length
  start_code : ∀ (k : Nat) (p q : Bytes × Bytes), ps[k]? = some p → out[k]? = some q → q.1 = p.1
  nalu_length : ∀ (k : Nat) (p q : Bytes × Bytes), ps[k]? = some p → out[k]? = some q → q.2.length = p.2.length
  kept : ∀ (k : Nat) (p q : Bytes × Bytes), ps[k]? = some p → out[k]? = some q → ¬Encrypted skip p.2 → q.2 = p.2
  encrypted : ∀ (k : Nat) (p q : Bytes × Bytes), ps[k]? = some p → out[k]? = some q → Encrypted skip p.2 →
    H.EncryptedAs key skip (encryptedCount skip (ps.take k)) p.2 q.2

/-! ## Units -/

/-- The types of an I-frame are not among those that are always kept. -/
theorem masked_iff_encrypted {skip : Nat} {nalu : Bytes} : Masked skip nalu ↔ Encrypted skip nalu := by
  have hdisjoint : ∀ t ∈ iOnlyTypes, t ∉ keepPlaintextTypes := by decide
  rw [Masked, Encrypted, List.length_drop]
  exact ⟨fun h => h.2, fun h => ⟨hdisjoint _ h.1, h⟩⟩

section Units

variable {H : Sha256} {key : Bytes} {skip : Nat}

/-- The byte of a mask. -/
theorem getD_xorBytes {a k : Bytes} {j : Nat} (hj : j < a.length) (hk : j < k.length) :
    (xorBytes a k).getD j 0 = a.getD j 0 ^^^ k.getD j 0 := by
  simp [xorBytes, List.getD_eq_getElem?_getD, hj, hk]

/-- A masked unit is encrypted as the law says. -/
theorem encryptedAs_maskNalu {nalu : Bytes} (h : Encrypted skip nalu) {i : Nat} (hi : i < 2 ^ 32) :
    H.EncryptedAs key skip i nalu (H.maskNalu key skip nalu i) := by
  have hlong : 2 + skip < nalu.length := by
    have := h.2
    omega
  have hbody : (nalu.drop 2).drop skip = nalu.drop (2 + skip) := List.drop_drop
  have hclear : nalu.take 2 ++ (nalu.drop 2).take skip = nalu.take (2 + skip) := (List.take_add ..).symm
  have hlen : (nalu.take (2 + skip)).length = 2 + skip := List.length_take_of_le (Nat.le_of_lt hlong)
  have hmask : H.maskNalu key skip nalu i =
      nalu.take (2 + skip) ++ xorBytes (nalu.drop (2 + skip)) (H.keystreamOf key skip nalu i) := by
    rw [Sha256.maskNalu, hclear, hbody]
  have hks : (H.keystreamOf key skip nalu i).length = nalu.length - (2 + skip) := by
    rw [length_keystreamOf, hbody, List.length_drop]
  refine ⟨H.digest (key ++ extractFeat32 nalu ++ PyZuc.toBytes4 i),
    (H.digest (extractFeat32 nalu ++ PyZuc.toBytes4 i ++ key)).take 16, H.keystreamOf key skip nalu i, ?_, ?_, hks, ?_, ?_⟩
  · rw [Sha256.kdfKeyIv, packI, if_pos hi]
    rfl
  · have hiv : ∀ m, ((H.digest m).take 16).length = 16 := by
      intro m
      rw [List.length_take, H.length_digest]
      rfl
    rw [PyZuc.zuc256Keystream_ok (H.length_digest _) (hiv _), Sha256.keystreamOf, hbody, List.length_drop]
  · rw [hmask, List.take_left' hlen]
  · intro j hj
    have hdrop : (nalu.drop (2 + skip)).getD j 0 = nalu.getD (2 + skip + j) 0 := by
      rw [List.getD_eq_getElem?_getD, List.getD_eq_getElem?_getD, List.getElem?_drop]
    rw [hmask, List.getD_append_right _ _ _ _ (by omega), hlen, Nat.add_sub_cancel_left,
      getD_xorBytes (by rw [List.length_drop]; omega) (by omega), hdrop]

/-! ## Indices -/

theorem encryptedCount_cons (p : Bytes × Bytes) (ps : List (Bytes × Bytes)) :
    encryptedCount skip (p :: ps) = encryptedCount skip ps + if Encrypted skip p.2 then 1 else 0 := by
  simp [encryptedCount, List.countP_cons]

theorem encNext_eq (i : Nat) (nalu : Bytes) :
    encNext i (decide (Masked skip nalu)) = i + if Encrypted skip nalu then 1 else 0 := by
  by_cases h : Encrypted skip nalu <;> simp [encNext, masked_iff_encrypted, h]

/-- The index of a unit is the number of encrypted units in front of it. -/
theorem getElem?_indices (i : Nat) (ps : List (Bytes × Bytes)) {k : Nat} (hk : k < ps.length) :
    (indices encNext skip i ps)[k]? = some (i + encryptedCount skip (ps.take k)) := by
  induction ps generalizing i k with
  | nil => exact absurd hk (Nat.not_lt_zero k)
  | cons p ps ih =>
    cases k with
    | zero => rfl
    | succ k =>
      rw [indices, List.getElem?_cons_succ, ih _ (Nat.lt_of_succ_lt_succ hk), List.take_succ_cons, encryptedCount_cons, encNext_eq,
        Nat.add_assoc, Nat.add_comm (encryptedCount skip (ps.take k))]

/-- The indices fit exactly when at most `2 ^ 32` units are encrypted. -/
theorem indicesFit_iff (i : Nat) (ps : List (Bytes × Bytes)) :
    IndicesFit skip ps (indices encNext skip i ps) ↔ encryptedCount skip ps = 0 ∨ i + encryptedCount skip ps ≤ 2 ^ 32 := by
  induction ps generalizing i with
  | nil => simp [IndicesFit, encryptedCount]
  | cons p ps ih =>
    have hcons : IndicesFit skip (p :: ps) (indices encNext skip i (p :: ps)) ↔
        (Masked skip p.2 → i < 2 ^ 32) ∧
          IndicesFit skip ps (indices encNext skip (encNext i (decide (Masked skip p.2))) ps) := by
      simp only [IndicesFit, indices, List.zip_cons_cons, List.forall_mem_cons]
    rw [hcons, ih, encNext_eq, masked_iff_encrypted, encryptedCount_cons]
    by_cases hp : Encrypted skip p.2
    · simp only [hp, if_true, true_implies]
      omega
    · simp only [hp, if_false, false_implies, true_and]
      omega

/-! ## The loop -/

/-- What the loop writes keeps the law. -/
theorem frameLaw_maskPieces {ps : List (Bytes × Bytes)} (hfit : IndicesFit skip ps (indices encNext skip 0 ps)) :
    H.FrameLaw key skip ps (List.zipWith (H.maskPiece key skip) ps (indices encNext skip 0 ps)) := by
  have hentry : ∀ k p q, ps[k]? = some p →
      (List.zipWith (H.maskPiece key skip) ps (indices encNext skip 0 ps))[k]? = some q →
        q = H.maskPiece key skip p (encryptedCount skip (ps.take k)) ∧
          (p, encryptedCount skip (ps.take k)) ∈ ps.zip (indices encNext skip 0 ps) := by
    intro k p q hp hq
    have hk : k < ps.length := (List.getElem?_eq_some_iff.mp hp).1
    have hindex : (indices encNext skip 0 ps)[k]? = some (0 + encryptedCount skip (ps.take k)) := getElem?_indices 0 ps hk
    rw [Nat.zero_add] at hindex
    rw [List.getElem?_zipWith, hp, hindex] at hq
    refine ⟨(Option.some.inj hq).symm, List.mem_of_getElem? (i := k) ?_⟩
    rw [List.getElem?_zip_eq_some]
    exact ⟨hp, hindex⟩
  refine ⟨by rw [List.length_zipWith, length_indices, Nat.min_self], ?_, ?_, ?_, ?_⟩
  · intro k p q hp hq
    rw [(hentry k p q hp hq).1, ← (maskPiece_shape p _).1]
  · intro k p q hp hq
    rw [(hentry k p q hp hq).1, ← (maskPiece_shape p _).2]
  · intro k p q hp hq hkeep
    rw [(hentry k p q hp hq).1, Sha256.maskPiece, if_neg (masked_iff_encrypted.not.mpr hkeep)]
  · intro k p q hp hq henc
    obtain ⟨rfl, hmem⟩ := hentry k p q hp hq
    have hmasked := masked_iff_encrypted.mpr henc
    rw [Sha256.maskPiece, if_pos hmasked]
    exact encryptedAs_maskNalu henc (hfit _ hmem hmasked)

end Units

/-- Theorem 17 (frame law). On a stream in which `find_start_codes` finds a start code, `hevc_xor_i_only` writes a list that keeps the
law exactly when at most `2 ^ 32` units are encrypted. -/
theorem hevc_frame_law_iff (H : Sha256) (key : Bytes) (skip : Nat) {data : Bytes} (hcodes : findStartCodes data ≠ []) :
    ∃ ps, splitAnnexbNalus data = .ok ps ∧
      ((∃ out, H.hevcXorIOnlyLoop key skip 0 ps = .ok out ∧ H.hevcXorIOnly key skip data = .ok (joinAnnexbNalus out) ∧
          H.FrameLaw key skip ps out) ↔
        encryptedCount skip ps ≤ 2 ^ 32) := by
  refine ⟨_, splitAnnexbNalus_eq hcodes, ?_⟩
  generalize hps : ((units data).filter fun p => ¬p.2.length < 2) = ps
  have hfits : IndicesFit skip ps (indices encNext skip 0 ps) ↔ encryptedCount skip ps ≤ 2 ^ 32 := by
    rw [indicesFit_iff]
    omega
  rw [← hfits]
  constructor
  · rintro ⟨out, hloop, -, -⟩
    rw [hevcXorIOnlyLoop_eq] at hloop
    exact ((passLoop_eq_ok_iff H key skip encNext 0 ps out).mp hloop).1
  · intro hfit
    have hloop := (passLoop_eq_ok_iff H key skip encNext 0 ps _).mpr ⟨hfit, rfl⟩
    rw [← hevcXorIOnlyLoop_eq] at hloop
    refine ⟨_, hloop, ?_, frameLaw_maskPieces hfit⟩
    rw [Sha256.hevcXorIOnly, splitAnnexbNalus_eq hcodes, ok_bind, hps, hloop]
    rfl

/-- On the stream of one IDR unit. -/
theorem hevc_frame_law_iff_idr :
    ∃ ps, splitAnnexbNalus (sampleUnit [0x80]) = .ok ps ∧
      ((∃ out, sampleSha256.hevcXorIOnlyLoop sampleKey 64 0 ps = .ok out ∧
          sampleSha256.hevcXorIOnly sampleKey 64 (sampleUnit [0x80]) = .ok (joinAnnexbNalus out) ∧
          sampleSha256.FrameLaw sampleKey 64 ps out) ↔
        encryptedCount 64 ps ≤ 2 ^ 32) :=
  hevc_frame_law_iff sampleSha256 sampleKey 64
    (And.left (findStartCodes_begins (.inl (by decide +kernel)) (by decide)))

/-! ## Streams on which it fails -/

/-- A short IDR unit with its start code. -/
def shortIdr : Bytes := START3 ++ [0x26, 0x01, 0x80]

/-- A stream of short IDR units. -/
def shortIdrs (n : Nat) : Bytes := (List.replicate n shortIdr).flatten

/-- Where no start code stands, the loop goes on. -/
theorem findStartCodesFrom_succ {data : Bytes} {i : Nat} (h4 : slice data i (i + 4) ≠ START4)
    (h3 : slice data i (i + 3) ≠ START3) : findStartCodesFrom data i = findStartCodesFrom data (i + 1) := by
  rw [findStartCodesFrom]
  by_cases hi : i < data.length - 3
  · rw [dif_pos hi, if_neg h4, if_neg h3]
  · rw [dif_neg hi, findStartCodesFrom, dif_neg (by omega)]

section ShortIdr

variable {pre rest data : Bytes}

/-- The start code and the body of a short IDR unit, behind other bytes. -/
theorem slices_shortIdr (hsplit : data = pre ++ shortIdr ++ rest) :
    slice data pre.length (pre.length + 3) = START3 ∧ slice data (pre.length + 3) (pre.length + 6) = [0x26, 0x01, 0x80] := by
  constructor
  · have hslice := slice_append_left pre START3 ([0x26, 0x01, 0x80] ++ rest)
    rw [← List.append_assoc START3, ← shortIdr, ← List.append_assoc, ← hsplit] at hslice
    exact hslice
  · have hslice := slice_append_left (pre ++ START3) [0x26, 0x01, 0x80] rest
    rw [List.length_append, List.append_assoc, ← List.append_assoc START3, ← shortIdr, ← List.append_assoc, ← hsplit] at hslice
    exact hslice

/-- The loop finds the start code, and no other in the body. -/
theorem findStartCodesFrom_shortIdr (hsplit : data = pre ++ shortIdr ++ rest) :
    findStartCodesFrom data pre.length = (pre.length, 3) :: findStartCodesFrom data (pre.length + 6) := by
  have hbyte : ∀ k, data[pre.length + k]? = (shortIdr ++ rest)[k]? := by
    intro k
    rw [hsplit, List.append_assoc, List.getElem?_append_right (Nat.le_add_right _ _), Nat.add_sub_cancel_left]
  have hlong : pre.length < data.length - 3 := by
    have hlen : shortIdr.length = 6 := rfl
    rw [hsplit, List.length_append, List.length_append, hlen]
    omega
  have hcode4 : slice data pre.length (pre.length + 4) ≠ START4 := by
    intro h
    exact byte_ne (slice_four_iff.mp h).2.2.1 (hbyte 2)
  have hstep : ∀ k b, (shortIdr ++ rest)[k]? = some b → b ≠ 0 →
      findStartCodesFrom data (pre.length + k) = findStartCodesFrom data (pre.length + k + 1) := by
    intro k b hk hb
    have hne : data[pre.length + k]? ≠ some 0 := by
      rw [hbyte, hk]
      intro h
      exact hb (Option.some.inj h)
    exact findStartCodesFrom_succ (fun h => hne (slice_four_iff.mp h).1) (fun h => hne (slice_three_iff.mp h).1)
  rw [findStartCodesFrom, dif_pos hlong, if_neg hcode4, if_pos (slices_shortIdr hsplit).1, hstep 3 0x26 rfl (by decide),
    hstep 4 0x01 rfl (by decide), hstep 5 0x80 rfl (by decide)]

end ShortIdr

/-- The stream is cut into its units. -/
theorem units_shortIdrs (n : Nat) (pre : Bytes) :
    next (pre ++ shortIdrs n).length (findStartCodesFrom (pre ++ shortIdrs n) pre.length) = pre.length ∧
      cut (pre ++ shortIdrs n) (findStartCodesFrom (pre ++ shortIdrs n) pre.length) =
        List.replicate n (START3, [0x26, 0x01, 0x80]) := by
  induction n generalizing pre with
  | zero =>
    rw [findStartCodesFrom, dif_neg (by simp [shortIdrs])]
    simp [shortIdrs, next]
  | succ n ih =>
    obtain ⟨hnext, hcut⟩ := ih (pre ++ shortIdr)
    have hsplit : pre ++ shortIdrs (n + 1) = pre ++ shortIdr ++ shortIdrs n := by
      rw [shortIdrs, List.replicate_succ, List.flatten_cons, ← shortIdrs, List.append_assoc]
    have hlen : (pre ++ shortIdr).length = pre.length + 6 := by
      rw [List.length_append]
      rfl
    obtain ⟨hcode, hbody⟩ := slices_shortIdr hsplit
    rw [← hsplit, hlen] at hnext hcut
    rw [findStartCodesFrom_shortIdr hsplit]
    refine ⟨rfl, ?_⟩
    rw [cut, hnext, hcut, hcode, hbody, List.replicate_succ]

/-- A stream of more than `2 ^ 32` short IDR units, all to be encrypted. -/
theorem shortIdrs_many {n : Nat} (hn : 2 ^ 32 < n) :
    findStartCodes (shortIdrs n) ≠ [] ∧
      ∃ ps, splitAnnexbNalus (shortIdrs n) = .ok ps ∧ 2 ^ 32 < encryptedCount 0 ps := by
  have hunits : units (shortIdrs n) = List.replicate n (START3, [0x26, 0x01, 0x80]) := (units_shortIdrs n []).2
  have hcodes : findStartCodes (shortIdrs n) ≠ [] := by
    intro h
    rw [units, h, cut_nil] at hunits
    have hlen := congrArg List.length hunits
    rw [List.length_replicate, List.length_nil] at hlen
    omega
  refine ⟨hcodes, _, splitAnnexbNalus_eq hcodes, ?_⟩
  rw [hunits, List.filter_replicate_of_pos (by decide), encryptedCount, List.countP_replicate, if_pos (by decide)]
  exact hn

/-- A bare start code is not found, and a stream may hold more units to encrypt than the index counts. -/
theorem frame_law_fails :
    (¬∀ (H : Sha256) (key : Bytes) (skip : Nat) (data : Bytes), (∃ pos, slice data pos (pos + 3) = START3) →
        ∃ ps out, splitAnnexbNalus data = .ok ps ∧ H.hevcXorIOnlyLoop key skip 0 ps = .ok out ∧ H.FrameLaw key skip ps out) ∧
      ¬∀ (H : Sha256) (key : Bytes) (skip : Nat) (data : Bytes), findStartCodes data ≠ [] →
        ∃ ps out, splitAnnexbNalus data = .ok ps ∧ H.hevcXorIOnlyLoop key skip 0 ps = .ok out ∧ H.FrameLaw key skip ps out := by
  constructor
  · intro h
    obtain ⟨ps, out, hsplit, -⟩ := h sampleSha256 sampleKey 0 START3 ⟨0, rfl⟩
    rw [splitAnnexbNalus, findStartCodes_short (by decide), if_pos rfl] at hsplit
    cases hsplit
  · intro h
    obtain ⟨hcodes, ps, hsplit, hmany⟩ := shortIdrs_many (n := 2 ^ 32 + 1) (by decide)
    obtain ⟨ps', out, hsplit', hloop, -⟩ := h sampleSha256 sampleKey 0 (shortIdrs (2 ^ 32 + 1)) hcodes
    obtain rfl : ps = ps' := Except.ok.inj (hsplit.symm.trans hsplit')
    rw [hevcXorIOnlyLoop_eq] at hloop
    have hfit := ((passLoop_eq_ok_iff sampleSha256 sampleKey 0 encNext 0 ps out).mp hloop).1
    rw [indicesFit_iff] at hfit
    omega

end AuthVideo
