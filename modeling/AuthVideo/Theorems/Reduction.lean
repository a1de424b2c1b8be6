import AuthVideo.Lemmas.BigMod
import AuthVideo.Theorems.Embedded

/-!
# Theorem 27: the reduction of the boards

The loop of `big_mod` takes off the copy of the divisor at the highest bit of what is left. `big512_shl` writes a copy that is
shifted by more than 8 words as zero, so the loop ends for the dividends whose highest bit is near enough to that of the divisor.
The products that the boards reduce are.
-/

namespace AuthVideo

/-- Theorem 27 (reduction). For a divisor that is not zero, `big_mod` ends with the remainder exactly when the highest bit of the
dividend is less than 288 places above that of the divisor. -/
theorem bigMod_exact_iff {a : Uint512} {m : Uint256} (hm : m.value ≠ 0) :
    (∃ fuel r, bigMod fuel a m = some r ∧ r.value = a.value % m.value) ↔ a.value.log2 < m.value.log2 + 288 := by
  have hpos := Nat.pos_of_ne_zero hm
  constructor
  · rintro ⟨fuel, r, hr, -⟩
    by_contra hfar
    rw [bigMod_of_le_log2 fuel hpos (Nat.not_lt.mp hfar)] at hr
    cases hr
  · intro hnear
    obtain ⟨r, hr⟩ := bigMod_of_log2 (Nat.le_refl 1026) hpos hnear
    exact ⟨1026, r, hr⟩

/-- 100 modulo 7. -/
theorem bigMod_exact_hundred :
    (∃ fuel r, bigMod fuel (bigMul (uint256 10) (uint256 10)) (uint256 7) = some r ∧
        r.value = (bigMul (uint256 10) (uint256 10)).value % (uint256 7).value) ↔
      (bigMul (uint256 10) (uint256 10)).value.log2 < (uint256 7).value.log2 + 288 :=
  bigMod_exact_iff (by decide)

/-- `2 ^ 288` modulo 1 never ends. -/
theorem bigMod_unending : ¬∀ (a : Uint512) (m : Uint256), m.value ≠ 0 →
    ∃ fuel r, bigMod fuel a m = some r ∧ r.value = a.value % m.value := by
  intro h
  obtain ⟨fuel, r, hr, -⟩ := h (bigMul (uint256 (2 ^ 144)) (uint256 (2 ^ 144))) (uint256 1) (by decide)
  have hfar : (uint256 1).value.log2 + 288 ≤ (bigMul (uint256 (2 ^ 144)) (uint256 (2 ^ 144))).value.log2 := by decide +kernel
  rw [bigMod_of_le_log2 fuel (by decide) hfar] at hr
  cases hr

end AuthVideo
