import AuthVideo.Lemmas.Texts

/-!
# Theorem 44: the number that `uint256_to_decstr` prints

`hex_to_uint256`, `uint256_to_hex` and the arithmetic take the word at index 0 for the lowest. `uint256_to_decstr` takes it for the
highest.
-/

namespace AuthVideo

/-- Theorem 44 (decimal printing). `uint256_to_decstr` writes the numeral of the number that the words hold, the word at index 0 the
lowest, exactly when the words read the same from both ends. -/
theorem decstr_exact_iff (v : Uint256) :
    uint256ToDecstr v = some (ascii (Nat.toDigits 10 v.value)) ↔ v.words.reverse = v.words := by
  rw [uint256ToDecstr_eq]
  constructor
  · intro h
    have hvalue : v.reversed.value = v.value := ascii_toDigits_inj (Option.some.inj h)
    exact congrArg Limbs.words (Limbs.value_inj hvalue)
  · intro h
    have hsame : v.reversed = v := Limbs.ext_words h
    rw [hsame]

/-- The number 1 is printed as 2 to the power of 224. -/
theorem decstr_of_one :
    uint256ToDecstr (setUint256 0 0 0 0 0 0 0 1) = some (ascii (Nat.toDigits 10 (2 ^ 224))) ∧
      ¬∀ v : Uint256, uint256ToDecstr v = some (ascii (Nat.toDigits 10 v.value)) := by
  have hone : uint256ToDecstr (setUint256 0 0 0 0 0 0 0 1) = some (ascii (Nat.toDigits 10 (2 ^ 224))) := by
    rw [uint256ToDecstr_eq]
    rfl
  refine ⟨hone, ?_⟩
  intro hall
  rw [hall] at hone
  have hvalue := ascii_toDigits_inj (Option.some.inj hone)
  exact absurd hvalue (by decide)

end AuthVideo
