import AuthVideo.Lemmas.Sm2Group

/-!
# Theorem 57: the SM2 round trip

`encry_sm2` writes the masked message with `hex`, which drops leading zeros. `decry_sm2` takes the length of the masked message off
the length of the ciphertext.
-/

namespace AuthVideo

open Sm2

/-- Theorem 57 (SM2 round trip). Where the derived key is not zero, the message comes back exactly when it is not too long for the key
derivation and its first hexadecimal digit is not that of the key, the first digit of the hash of the shared point and the counter 1. -/
theorem sm2_round_trip_iff (H : Sm3) {dB k : ℕ} (hd : 1 ≤ dB) (hdn : dB < getArgs.n) (hk : 1 ≤ k) (hkn : k < getArgs.n) {PB : ℤ × ℤ}
    (hPB : multPoint (some getArgs.G) dB getArgs.p getArgs.a = .ok (some PB)) {M : Text} (hM : M ≠ [])
    (hascii : ∀ c ∈ M, c.toNat < 128)
    (hkey : H.encrySm2 getArgs PB M k ≠ .error (.exception "KDF返回了全零串，请检查KDF算法！")) :
    ∃ x y : ℕ, encode ((dB * k) • basePoint) = some ((x : ℤ), (y : ℤ)) ∧
      ((H.encrySm2 getArgs PB M k >>= H.decrySm2 getArgs dB) = .ok M ↔
        8 * M.length < (2 ^ 32 - 1) * 256 ∧
          digitValue ((H.hash (BigEndian.encode 32 x ++ BigEndian.encode 32 y ++ [0, 0, 0, 1])).headD '0') ≠
            (M.head hM).toNat / 16) := by
  obtain ⟨x1, y1, x2, y2, hagreed, hpoint⟩ := agreed_of_lt hd hdn hk hkn hPB
  refine ⟨x2, y2, hpoint, ?_⟩
  rw [← firstInput_eq x2 hagreed.y2_lt]
  exact round_trip_iff hagreed hM hascii hkey

/-! ## Two hashes -/

/-- The hash that is one digit throughout. -/
def constantHash (c : Char) (hc : digitValue c < 16) : Sm3 where
  hash _ := List.replicate 64 c
  length_hash _ := List.length_replicate
  isNumeral_hash _ d hd := by rwa [List.eq_of_mem_replicate hd]

theorem firstDigit_constantHash {c : Char} (hc : digitValue c < 16) (l z : ℕ) :
    (constantHash c hc).firstDigit l z = digitValue c := rfl

theorem ascii_letter : ∀ c ∈ ['H'], c.toNat < 128 := by
  intro c hc
  rw [List.mem_singleton.mp hc]
  decide

/-- The key pair of the number 1 and the number 1. -/
theorem agreed_one : ∃ x1 y1 x2 y2, Agreed getArgs.G 1 1 x1 y1 x2 y2 := by
  have hone : 1 < getArgs.n := by decide
  obtain ⟨x1, y1, x2, y2, hagreed, -⟩ := agreed_of_lt le_rfl hone le_rfl hone (multPoint_one (some getArgs.G) _ _)
  exact ⟨x1, y1, x2, y2, hagreed⟩

theorem constantHash_derives {c : Char} (hc : digitValue c < 16) (hne : digitValue c ≠ 0) :
    (constantHash c hc).encrySm2 getArgs getArgs.G ['H'] 1 ≠ .error (.exception "KDF返回了全零串，请检查KDF算法！") := by
  obtain ⟨x1, y1, x2, y2, hagreed⟩ := agreed_one
  obtain ⟨t, v, -, -, hcipher⟩ := encrySm2_of_digit (H := constantHash c hc) (M := ['H']) hagreed (List.cons_ne_nil _ _) ascii_letter
    (by decide) hne
  rw [hcipher]
  exact nofun

/-- With the hash that is the digit 9 throughout the letter `H` comes back. -/
theorem sm2_round_trip_iff_nine :
    ((constantHash '9' (by decide)).encrySm2 getArgs getArgs.G ['H'] 1 >>= (constantHash '9' (by decide)).decrySm2 getArgs 1) =
      .ok ['H'] := by
  have hone : 1 < getArgs.n := by decide
  obtain ⟨x, y, -, hiff⟩ := sm2_round_trip_iff (constantHash '9' (by decide)) le_rfl hone le_rfl hone (multPoint_one _ _ _)
    (List.cons_ne_nil 'H' []) ascii_letter (constantHash_derives _ (by decide))
  refine hiff.mpr ⟨by decide, ?_⟩
  change digitValue '9' ≠ 'H'.toNat / 16
  decide

/-- What the two sides raise on a key of zeros and on the point at infinity. -/
def degenerateTexts : List String :=
  ["计算得到的S是无穷远点", "KDF返回了全零串，请检查KDF算法！", "在解密算法B2中，S是无穷远点！", "在解密算法B4中，得到的t是全0串！"]

/-- With the hash that is the digit 4 throughout the letter `H`, whose code is 0x48, loses its first digit and is not decrypted. -/
theorem sm2_leading_zero_lost :
    ((constantHash '4' (by decide)).encrySm2 getArgs getArgs.G ['H'] 1 >>= (constantHash '4' (by decide)).decrySm2 getArgs 1) =
        .error (.exception "无法实现字节串到点的转换，请检查PC是否为b'04'！") ∧
      ¬∀ (H : Sm3) (dB k : ℕ) (PB : ℤ × ℤ) (M : Text), 1 ≤ dB → dB < getArgs.n → 1 ≤ k → k < getArgs.n →
        multPoint (some getArgs.G) dB getArgs.p getArgs.a = .ok (some PB) → M ≠ [] → (∀ c ∈ M, c.toNat < 128) →
        (∀ text ∈ degenerateTexts, H.encrySm2 getArgs PB M k ≠ .error (.exception text) ∧
          (H.encrySm2 getArgs PB M k >>= H.decrySm2 getArgs dB) ≠ .error (.exception text)) →
        (H.encrySm2 getArgs PB M k >>= H.decrySm2 getArgs dB) = .ok M := by
  have hone : 1 < getArgs.n := by decide
  obtain ⟨x1, y1, x2, y2, hagreed⟩ := agreed_one
  obtain ⟨C, hcipher, hplain⟩ := round_trip_character (H := constantHash '4' (by decide)) (c := 'H') hagreed (by decide)
    (by rw [firstDigit_constantHash]; decide) (by rw [firstDigit_constantHash]; decide)
  have hresult : ((constantHash '4' (by decide)).encrySm2 getArgs getArgs.G ['H'] 1 >>=
      (constantHash '4' (by decide)).decrySm2 getArgs 1) =
      .error (.exception "无法实现字节串到点的转换，请检查PC是否为b'04'！") := by
    rw [hcipher, ok_bind, hplain]
  refine ⟨hresult, ?_⟩
  intro hall
  have hback := hall (constantHash '4' (by decide)) 1 1 getArgs.G ['H'] le_rfl hone le_rfl hone (multPoint_one _ _ _)
    (List.cons_ne_nil _ _) ascii_letter ?_
  · rw [hresult] at hback
    cases hback
  · intro text htext
    rw [hresult, hcipher]
    refine ⟨nofun, ?_⟩
    intro hsame
    rw [Except.error.injEq, Error.exception.injEq] at hsame
    rw [← hsame] at htext
    exact absurd htext (by decide)

end AuthVideo
