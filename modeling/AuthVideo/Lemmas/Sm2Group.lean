import AuthVideo.Lemmas.Sm2Encryption
import AuthVideo.Lib.CurveLadder
import AuthVideo.Lib.Pocklington
import Mathlib.Tactic.NormNum.Prime

/-!
# The group of the SM2 comparison

The parameters of `get_args`: the field is of prime order, and the base point is of the prime order `n`. So `mult_point` returns every
multiple of the base point below `n`, and both sides of the encryption compute one point.
-/

namespace AuthVideo

namespace Sm2

/-! ## Primes -/

/-- The order of the base point is a prime: the last of a chain of certificates. -/
theorem order_prime : getArgs.n.Prime := by
  have h337537 : Nat.Prime 337537 := by norm_num
  have h10069 : Nat.Prime 10069 := by norm_num
  have h992591 : Nat.Prime 992591 := by norm_num
  have h46237 : Nat.Prime 46237 := by norm_num
  have hleft : Nat.Prime 6559413902291 :=
    Pocklington.prime_of_check (by simp [h337537, h10069]) (show Pocklington.check _ 2 [337537, 10069] = true by decide +kernel)
  have hleft' : Nat.Prime 8294418235930383247 :=
    Pocklington.prime_of_check (by simp [hleft]) (show Pocklington.check _ 2 [6559413902291] = true by decide +kernel)
  have hleft'' : Nat.Prime 332700652099725518191645952819 :=
    Pocklington.prime_of_check (by simp [hleft']) (show Pocklington.check _ 2 [8294418235930383247] = true by decide +kernel)
  have hright : Nat.Prime 462432277355093 :=
    Pocklington.prime_of_check (by simp [h992591, h46237]) (show Pocklington.check _ 2 [992591, 46237] = true by decide +kernel)
  have hright' : Nat.Prime 94336184580438973 :=
    Pocklington.prime_of_check (by simp [hright]) (show Pocklington.check _ 2 [462432277355093] = true by decide +kernel)
  have hhalf : Nat.Prime 30137851004622548192843085757609948207959822349226712027780832625665148140763 :=
    Pocklington.prime_of_check (by simp [hleft'', hright'])
      (show Pocklington.check _ 2 [332700652099725518191645952819, 94336184580438973] = true by decide +kernel)
  exact Pocklington.prime_of_check (by simp [hhalf])
    (show Pocklington.check _ 2 [30137851004622548192843085757609948207959822349226712027780832625665148140763] = true by
      decide +kernel)

/-- The multiple before the order is opposite to the base point. -/
theorem isOpposite_base :
    CurveLadder.isOpposite getArgs.p getArgs.a getArgs.G.1 getArgs.G.2 255 (getArgs.n - 1) = true := by decide +kernel

/-- The field is of prime order. -/
theorem field_prime : getArgs.p.Prime :=
  CurveLadder.prime_of_order (b := getArgs.b) (by decide) (by decide) (by decide) order_prime (by decide)
    isOpposite_base (by decide)

instance fact_field_prime : Fact getArgs.p.Prime := ⟨field_prime⟩

/-! ## The base point -/

/-- The group of the curve of `get_args`. -/
abbrev Sm2Group := CurveGroup getArgs.p getArgs.a getArgs.b

theorem base_nonsingular :
    (ShortCurve.curve ((getArgs.a : ℤ) : ZMod getArgs.p) (getArgs.b : ℤ)).Nonsingular (getArgs.G.1 : ZMod getArgs.p) getArgs.G.2 := by
  have hon : ((getArgs.p : ℕ) : ℤ) ∣ getArgs.G.2 * getArgs.G.2 -
      (getArgs.G.1 * getArgs.G.1 * getArgs.G.1 + (getArgs.a : ℤ) * getArgs.G.1 + (getArgs.b : ℤ)) := by decide
  have hzero := (ZMod.intCast_zmod_eq_zero_iff_dvd _ _).mpr hon
  have hdouble : ((2 * getArgs.G.2 : ℤ) : ZMod getArgs.p) ≠ 0 := fun h0 =>
    absurd ((ZMod.intCast_zmod_eq_zero_iff_dvd _ _).mp h0) (by decide)
  push_cast at hzero hdouble
  refine ShortCurve.nonsingular_of_ne_zero (ShortCurve.equation_iff.mpr ?_) hdouble
  push_cast
  linear_combination hzero

/-- The base point. -/
def basePoint : Sm2Group := .some (getArgs.G.1 : ZMod getArgs.p) getArgs.G.2 base_nonsingular

theorem encode_basePoint : encode basePoint = some getArgs.G := by
  have hx : getArgs.G.1.fmod getArgs.p = getArgs.G.1 := by decide
  have hy : getArgs.G.2.fmod getArgs.p = getArgs.G.2 := by decide
  rw [basePoint, encode_some, ← fmod_eq_val, ← fmod_eq_val, hx, hy]

theorem addOrderOf_basePoint : addOrderOf basePoint = getArgs.n := by
  have hzero : (((getArgs.p : ℕ) : ℤ) : ZMod getArgs.p) = 0 := by rw [Int.cast_natCast, ZMod.natCast_self]
  exact CurveLadder.addOrderOf_eq hzero base_nonsingular order_prime (by decide) isOpposite_base

/-! ## Multiples below the order -/

variable {P : Sm2Group} {m : ℕ}

/-- A point of the order of the base point is not at infinity. -/
theorem ne_zero_of_order (hP : addOrderOf P = getArgs.n) : P ≠ 0 := by
  rintro rfl
  rw [addOrderOf_zero] at hP
  exact absurd hP (by decide)

/-- A multiple by a number below the order has the order. -/
theorem addOrderOf_nsmul_of_lt (hP : addOrderOf P = getArgs.n) (hm : 1 ≤ m) (hmn : m < getArgs.n) :
    addOrderOf (m • P) = getArgs.n := by
  have hcop : (addOrderOf P).Coprime m := by
    rw [hP]
    exact Nat.coprime_of_lt_prime (by omega) hmn order_prime
  rw [hcop.addOrderOf_nsmul, hP]

/-- `mult_point` returns the multiple. -/
theorem multPoint_of_order (hP : addOrderOf P = getArgs.n) (hmn : m < getArgs.n) :
    multPoint (encode P) m getArgs.p getArgs.a = .ok (encode (m • P)) := by
  refine multPoint_encode (ne_zero_of_order hP) (neverInfinite_of_lt ?_)
  intro j hj hjm
  exact nsmul_ne_zero_of_lt_addOrderOf (by omega) (by omega)

/-- The coordinates of a point that is not at infinity. -/
theorem exists_encode (hP : P ≠ 0) : ∃ x y : ℕ, encode P = some ((x : ℤ), (y : ℤ)) ∧ x < 256 ^ 32 ∧ y < 256 ^ 32 ∧
    onCurve getArgs (x, y) = true := by
  obtain _ | ⟨x, y, h⟩ := P
  · exact absurd rfl hP
  have hbound : getArgs.p ≤ 256 ^ 32 := by decide
  refine ⟨x.val, y.val, rfl, (ZMod.val_lt x).trans_le hbound, (ZMod.val_lt y).trans_le hbound, ?_⟩
  have hon := ShortCurve.equation_iff.mp h.1
  refine decide_eq_true ((ZMod.intCast_eq_intCast_iff' _ _ _).mp ?_)
  rw [Int.cast_add, Int.cast_add, ZMod.intCast_mod]
  push_cast
  rw [ZMod.natCast_zmod_val, ZMod.natCast_zmod_val]
  push_cast at hon
  linear_combination hon

/-- Both sides compute the multiple of the base point by the product of their numbers. -/
theorem agreed_of_lt {dB k : ℕ} (hd : 1 ≤ dB) (hdn : dB < getArgs.n) (hk : 1 ≤ k) (hkn : k < getArgs.n) {PB : ℤ × ℤ}
    (hPB : multPoint (some getArgs.G) dB getArgs.p getArgs.a = .ok (some PB)) :
    ∃ x1 y1 x2 y2, Agreed PB dB k x1 y1 x2 y2 ∧ encode ((dB * k) • basePoint) = some ((x2 : ℤ), (y2 : ℤ)) := by
  have hB := addOrderOf_nsmul_of_lt addOrderOf_basePoint hd hdn
  have hK := addOrderOf_nsmul_of_lt addOrderOf_basePoint hk hkn
  have hshared : dB • k • basePoint = (dB * k) • basePoint := (mul_nsmul' basePoint dB k).symm
  have hcomm : k • dB • basePoint = (dB * k) • basePoint := (mul_nsmul basePoint dB k).symm
  obtain ⟨x1, y1, h1, hx1, hy1, hon⟩ := exists_encode (ne_zero_of_order hK)
  obtain ⟨x2, y2, h2, hx2, hy2, -⟩ := exists_encode (ne_zero_of_order (addOrderOf_nsmul_of_lt hB hk hkn))
  have hfirst := multPoint_of_order addOrderOf_basePoint hkn
  have hother := multPoint_of_order hB hkn
  have hback := multPoint_of_order hK hdn
  rw [← encode_basePoint, multPoint_of_order addOrderOf_basePoint hdn, Except.ok.injEq] at hPB
  rw [encode_basePoint, h1] at hfirst
  rw [hPB, h2] at hother
  rw [h1, hshared, ← hcomm, h2] at hback
  rw [hcomm] at h2
  exact ⟨x1, y1, x2, y2, ⟨hx1, hy1, hx2, hy2, hfirst, hon, hother, hback⟩, h2⟩

end Sm2

end AuthVideo
