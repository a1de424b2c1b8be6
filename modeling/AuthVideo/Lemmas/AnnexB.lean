import AuthVideo.Lemmas.StartCodes
import AuthVideo.Lemmas.Python

/-!
# What a pass over a stream does

Both loops mask the same units and differ only in the index that they give to a unit. A pass keeps the start codes, the lengths
and the clear bytes, so the stream that leaves it is the stream that entered it with a mask laid over.
-/

namespace AuthVideo

open Segments

/-! ## The mask of a unit -/

/-- A unit that the loops mask: of an I-frame, and longer than what is left clear. -/
def Masked (skip : Nat) (nalu : Bytes) : Prop :=
  hevcNalUnitType nalu ∉ keepPlaintextTypes ∧ hevcNalUnitType nalu ∈ iOnlyTypes ∧ skip < (nalu.drop 2).length

instance (skip : Nat) (nalu : Bytes) : Decidable (Masked skip nalu) := inferInstanceAs (Decidable (_ ∧ _))

/-- The keystream of a unit under an index. -/
def Sha256.keystreamOf (H : Sha256) (key : Bytes) (skip : Nat) (nalu : Bytes) (i : Nat) : Bytes :=
  let feat := extractFeat32 nalu
  PyZuc.keystreamBytes
    (PyZuc.initState (H.digest (key ++ feat ++ PyZuc.toBytes4 i)) ((H.digest (feat ++ PyZuc.toBytes4 i ++ key)).take 16))
    ((nalu.drop 2).drop skip).length

/-- A unit with its keystream laid over its body. -/
def Sha256.maskNalu (H : Sha256) (key : Bytes) (skip : Nat) (nalu : Bytes) (i : Nat) : Bytes :=
  nalu.take 2 ++ (nalu.drop 2).take skip ++ xorBytes ((nalu.drop 2).drop skip) (H.keystreamOf key skip nalu i)

theorem PyZuc.length_keystreamWords (words : Nat) (z : PyZuc.State) :
    (PyZuc.keystreamWords words z).length = 4 * words := by
  induction words generalizing z with
  | zero => rfl
  | succ words ih =>
    rw [PyZuc.keystreamWords, List.length_append, ih]
    simp only [PyZuc.toBytes4, List.length_cons, List.length_nil]
    omega

/-- `keystream_bytes` gives as many bytes as it is asked for. -/
@[simp] theorem PyZuc.length_keystreamBytes (z : PyZuc.State) (n : Nat) : (PyZuc.keystreamBytes z n).length = n := by
  rw [PyZuc.keystreamBytes, List.length_take, PyZuc.length_keystreamWords]
  omega

/-- A key of 32 bytes and an IV of 16 are taken. -/
theorem PyZuc.zuc256Keystream_ok {key iv : Bytes} (hkey : key.length = 32) (hiv : iv.length = 16) (n : Nat) :
    PyZuc.zuc256Keystream key iv n = .ok (PyZuc.keystreamBytes (PyZuc.initState key iv) n) := by
  rw [PyZuc.zuc256Keystream, PyZuc.ZUC256, if_neg (not_not.mpr hkey), if_neg fun h => h.1 hiv, if_pos hiv]
  rfl

@[simp] theorem length_xorBytes (a b : Bytes) : (xorBytes a b).length = min a.length b.length := List.length_zipWith

/-- Masking twice with two keystreams of the length gives the bytes back exactly when the keystreams are the same. -/
theorem xorBytes_xorBytes_iff {a k l : Bytes} (hk : k.length = a.length) (hl : l.length = a.length) :
    xorBytes (xorBytes a k) l = a ↔ k = l := by
  induction a generalizing k l with
  | nil => simp_all [xorBytes]
  | cons x a ih =>
    obtain _ | ⟨y, k⟩ := k
    · cases hk
    · obtain _ | ⟨z, l⟩ := l
      · cases hl
      · have hbyte : x ^^^ y ^^^ z = x ↔ y = z := by
          constructor
          · intro h
            have h0 : x ^^^ (y ^^^ z) = x ^^^ 0 := by rw [← UInt8.xor_assoc, h, UInt8.xor_zero]
            exact UInt8.xor_eq_zero_iff.mp ((UInt8.xor_right_inj x).mp h0)
          · rintro rfl
            rw [UInt8.xor_assoc, UInt8.xor_self, UInt8.xor_zero]
        have htail := ih (Nat.succ.inj hk) (Nat.succ.inj hl)
        simp only [xorBytes] at htail
        simp only [xorBytes, List.zipWith_cons_cons, List.cons.injEq, hbyte, htail]

section Unit

variable {H : Sha256} {key : Bytes} {skip : Nat} {nalu : Bytes} {i : Nat}

@[simp] theorem length_keystreamOf : (H.keystreamOf key skip nalu i).length = ((nalu.drop 2).drop skip).length := by
  simp only [Sha256.keystreamOf, PyZuc.length_keystreamBytes]

/-- `xorNalu` masks the unit, unless its index does not fit into 32 bits. -/
theorem xorNalu_eq : H.xorNalu key skip nalu i =
    if i < 2 ^ 32 then .ok (H.maskNalu key skip nalu i) else .error .structError := by
  unfold Sha256.xorNalu Sha256.kdfKeyIv packI
  split
  · have hiv : ∀ m, ((H.digest m).take 16).length = 16 := by
      intro m
      rw [List.length_take, H.length_digest]
      rfl
    simp only [ok_bind, pure_eq_ok, PyZuc.zuc256Keystream_ok (H.length_digest _) (hiv _)]
    rfl
  · rfl

theorem take_two_maskNalu (h : Masked skip nalu) : (H.maskNalu key skip nalu i).take 2 = nalu.take 2 := by
  have hlen : (nalu.take 2).length = 2 := by
    have := h.2.2
    simp only [List.length_drop, List.length_take] at this ⊢
    omega
  rw [Sha256.maskNalu, List.append_assoc, List.take_append_of_le_length (Nat.le_of_eq hlen.symm),
    List.take_of_length_le (Nat.le_of_eq hlen)]

theorem drop_two_maskNalu (h : Masked skip nalu) : (H.maskNalu key skip nalu i).drop 2 =
    (nalu.drop 2).take skip ++ xorBytes ((nalu.drop 2).drop skip) (H.keystreamOf key skip nalu i) := by
  have hlen : (nalu.take 2).length = 2 := by
    have := h.2.2
    simp only [List.length_drop, List.length_take] at this ⊢
    omega
  rw [Sha256.maskNalu, List.append_assoc, List.drop_left' hlen]

theorem length_clear (h : Masked skip nalu) : ((nalu.drop 2).take skip).length = skip := by
  rw [List.length_take, Nat.min_eq_left (Nat.le_of_lt h.2.2)]

/-- Masking keeps the length. -/
theorem length_maskNalu : (H.maskNalu key skip nalu i).length = nalu.length := by
  simp only [Sha256.maskNalu, List.length_append, length_xorBytes, length_keystreamOf, Nat.min_self, List.length_take,
    List.length_drop]
  omega

/-- Masking keeps the type of the unit. -/
theorem hevcNalUnitType_maskNalu (h : Masked skip nalu) :
    hevcNalUnitType (H.maskNalu key skip nalu i) = hevcNalUnitType nalu := by
  have hhead : ∀ l : Bytes, l.headD 0 = (l.take 2).headD 0 := by
    intro l
    cases l <;> rfl
  rw [hevcNalUnitType, hevcNalUnitType, hhead, take_two_maskNalu h, ← hhead]

/-- A masked unit is masked again by a further pass. -/
theorem masked_maskNalu (h : Masked skip nalu) : Masked skip (H.maskNalu key skip nalu i) := by
  refine ⟨?_, ?_, ?_⟩
  · rw [hevcNalUnitType_maskNalu h]
    exact h.1
  · rw [hevcNalUnitType_maskNalu h]
    exact h.2.1
  · rw [List.length_drop, length_maskNalu, ← List.length_drop]
    exact h.2.2

/-- The bytes that the key is derived from stay clear. -/
theorem extractFeat32_maskNalu (h : Masked skip nalu) (hskip : 32 ≤ skip) :
    extractFeat32 (H.maskNalu key skip nalu i) = extractFeat32 nalu := by
  have hlong := h.2.2
  have hlen : ((H.maskNalu key skip nalu i).drop 2).length = (nalu.drop 2).length := by
    rw [List.length_drop, length_maskNalu, List.length_drop]
  have htake : ((H.maskNalu key skip nalu i).drop 2).take 32 = (nalu.drop 2).take 32 := by
    rw [drop_two_maskNalu h, List.take_append_of_le_length (by rw [length_clear h]; exact hskip), List.take_take,
      Nat.min_eq_left hskip]
  simp only [extractFeat32, hlen, htake]
  rw [if_pos (by omega), if_pos (by omega)]

/-- A further pass derives the same keystream for the same index. -/
theorem keystreamOf_maskNalu (h : Masked skip nalu) (hskip : 32 ≤ skip) (j : Nat) :
    H.keystreamOf key skip (H.maskNalu key skip nalu i) j = H.keystreamOf key skip nalu j := by
  have hlen : (((H.maskNalu key skip nalu i).drop 2).drop skip).length = ((nalu.drop 2).drop skip).length := by
    simp only [List.length_drop, length_maskNalu]
  simp only [Sha256.keystreamOf, extractFeat32_maskNalu h hskip, hlen]

/-- Two masks cancel exactly when they are the same. -/
theorem maskNalu_maskNalu_iff (h : Masked skip nalu) (hskip : 32 ≤ skip) (j : Nat) :
    H.maskNalu key skip (H.maskNalu key skip nalu i) j = nalu ↔
      H.keystreamOf key skip nalu i = H.keystreamOf key skip nalu j := by
  have hclear := length_clear h
  have houter : H.maskNalu key skip (H.maskNalu key skip nalu i) j =
      nalu.take 2 ++ (nalu.drop 2).take skip ++
        xorBytes (xorBytes ((nalu.drop 2).drop skip) (H.keystreamOf key skip nalu i)) (H.keystreamOf key skip nalu j) := by
    rw [Sha256.maskNalu, keystreamOf_maskNalu h hskip, take_two_maskNalu h, drop_two_maskNalu h]
    rw [List.take_append_of_le_length (Nat.le_of_eq hclear.symm), List.take_of_length_le (Nat.le_of_eq hclear)]
    congr 2
    nth_rewrite 1 [← hclear]
    rw [List.drop_left]
  have hparts : nalu = nalu.take 2 ++ (nalu.drop 2).take skip ++ (nalu.drop 2).drop skip := by
    rw [List.append_assoc, List.take_append_drop, List.take_append_drop]
  have hcancel : ∀ body, nalu.take 2 ++ (nalu.drop 2).take skip ++ body = nalu ↔ body = (nalu.drop 2).drop skip := by
    intro body
    constructor
    · intro hbody
      exact List.append_cancel_left (hbody.trans hparts)
    · rintro rfl
      exact hparts.symm
  rw [houter, hcancel, xorBytes_xorBytes_iff length_keystreamOf length_keystreamOf]

end Unit

end AuthVideo
