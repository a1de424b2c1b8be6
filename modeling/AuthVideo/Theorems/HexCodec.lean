import AuthVideo.Lemmas.HexText

/-!
# Theorem 46: the hexadecimal texts of the boards

`hex_to_uint256` checks all of its text before it writes anything, and the third of its error codes is never returned. With
`uint256_to_hex` it is a codec whose texts are the 64 digits in upper case.
-/

namespace AuthVideo

/-- A text that `hex_to_uint256` is meant to accept. -/
def IsHex256 (s : Bytes) : Prop := s.length = 64 ∧ ∀ c ∈ s, IsHexDigit c

/-- It is read exactly when it is one. -/
theorem isSome_hexToUint256_iff (s : Bytes) : (hexToUint256 s).isSome ↔ IsHex256 s := by
  rw [IsHex256, hexToUint256]
  by_cases hlen : s.length = 64
  · rw [if_neg (not_not.mpr hlen)]
    by_cases hdigits : ∀ c ∈ s, IsHexDigit c
    · rw [mapM_isxdigit_eq hdigits]
      exact ⟨fun _ => ⟨hlen, hdigits⟩, fun _ => rfl⟩
    · rw [mapM_isxdigit_none hdigits]
      exact ⟨fun h => absurd h (by decide), fun h => absurd h.2 hdigits⟩
  · rw [if_pos hlen]
    exact ⟨fun h => absurd h (by decide), fun h => absurd h.1 hlen⟩

/-- What `hex_to_uint256` does with a text that it accepts. -/
theorem hexToUint256Ret_of_isHex {s : Bytes} (h : IsHex256 s) (r : Uint256) :
    ∃ a, hexToUint256 s = some a ∧ hexToUint256Ret s r = (0, a) := by
  obtain ⟨a, ha⟩ := Option.isSome_iff_exists.mp ((isSome_hexToUint256_iff s).mpr h)
  refine ⟨a, ha, ?_⟩
  rw [hexToUint256Ret_eq, ha]

/-- What it does with another one. -/
theorem hexToUint256Ret_of_not_isHex {s : Bytes} (h : ¬IsHex256 s) (r : Uint256) :
    (hexToUint256Ret s r).1 ≠ 0 ∧ (hexToUint256Ret s r).2 = r := by
  have hnone : hexToUint256 s = none := by
    rw [← Option.not_isSome_iff_eq_none, isSome_hexToUint256_iff]
    exact h
  rw [hexToUint256Ret_eq, hnone]
  refine ⟨?_, rfl⟩
  dsimp only
  split <;> decide

/-- Theorem 46 (hexadecimal codec). For every text and every earlier value of the result: `hex_to_uint256` returns 0 exactly when the
text is 64 hexadecimal digits. It then stores the number that they denote, the lowest word first, and otherwise leaves the result. What
`uint256_to_hex` writes is accepted and read back, and it writes what was read in upper case. -/
theorem hex_codec (s : Bytes) (r : Uint256) :
    ((hexToUint256Ret s r).1 = 0 ↔ IsHex256 s) ∧
      (IsHex256 s → (hexToUint256Ret s r).2.value = hexNumber s) ∧
      (¬IsHex256 s → (hexToUint256Ret s r).2 = r) ∧
      (∀ v, hexToUint256Ret (uint256ToHex v) r = (0, v)) ∧
      (IsHex256 s → uint256ToHex (hexToUint256Ret s r).2 = s.map toupper) := by
  refine ⟨⟨?_, ?_⟩, ?_, ?_, ?_, ?_⟩
  · intro hzero
    by_contra hnot
    exact (hexToUint256Ret_of_not_isHex hnot r).1 hzero
  · intro h
    obtain ⟨a, -, hret⟩ := hexToUint256Ret_of_isHex h r
    rw [hret]
  · intro h
    obtain ⟨a, ha, hret⟩ := hexToUint256Ret_of_isHex h r
    rw [hret]
    exact hexToUint256_value ha
  · intro hnot
    exact (hexToUint256Ret_of_not_isHex hnot r).2
  · intro v
    rw [hexToUint256Ret_eq, hexToUint256_uint256ToHex]
  · intro h
    obtain ⟨a, ha, hret⟩ := hexToUint256Ret_of_isHex h r
    rw [hret]
    exact uint256ToHex_of_read ha

end AuthVideo
