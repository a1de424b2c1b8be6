import AuthVideo.Sm2Curve
import AuthVideo.Lib.ShortCurve
import Mathlib.Algebra.Field.ZMod

/-!
# What the curve arithmetic computes

Modulo a prime the functions compute the slopes, the sums and the doubles of the group of the curve, as long as no result is the point
at infinity. Where one would be, they raise.
-/

namespace AuthVideo

namespace Sm2

/-! ## The inverse -/

/-- The loop of `calc_inverse` returns the first coefficient of Bézout's identity. -/
theorem calcInverseLoop_bezout {M m u1 u2 u3 v1 v2 v3 : ℤ} (hv : 0 ≤ v3) (hpos : 0 < u3 ∨ 0 < v3)
    (hu : u1 * M + u2 * m = u3) (hv' : v1 * M + v2 * m = v3) :
    ∃ s, calcInverseLoop u1 u2 u3 v1 v2 v3 * M + s * m = Int.gcd u3 v3 := by
  fun_induction calcInverseLoop u1 u2 u3 v1 v2 v3 with
  | case1 u1 u2 u3 v1 v2 v3 hne q ih =>
    have hv3 : 0 < v3 := lt_of_le_of_ne hv (Ne.symm hne)
    have hrest : u3 - q * v3 = u3.fmod v3 := by rw [Int.fmod_def, mul_comm v3]
    have hnonneg : 0 ≤ u3 - q * v3 := by
      rw [hrest]
      exact Int.fmod_nonneg_of_pos u3 hv3
    obtain ⟨s, hs⟩ := ih hnonneg (.inl hv3) hv' (by linear_combination hu - q * hv')
    refine ⟨s, ?_⟩
    rw [hs, Int.gcd_sub_mul_right_right, Int.gcd_comm]
  | case2 u1 u2 u3 v1 v2 v3 hzero =>
    obtain rfl : v3 = 0 := not_not.mp hzero
    have hu3 : 0 < u3 := hpos.resolve_right (lt_irrefl 0)
    refine ⟨u2, ?_⟩
    rw [hu, Int.gcd_zero_right, Int.natAbs_of_nonneg hu3.le]

variable {p : ℕ}

/-- `calc_inverse` of a number that has no inverse. -/
theorem calcInverse_none {M : ℤ} (h : Int.gcd M p ≠ 1) : calcInverse M p = .ok none := if_pos h

/-- `calc_inverse` of a number that has an inverse. -/
theorem calcInverse_some (hp : 0 < p) {M : ℤ} (h : Int.gcd M p = 1) :
    ∃ inverse, calcInverse M p = .ok (some inverse) ∧ (inverse : ZMod p) * M = 1 := by
  have hp' : (p : ℤ) ≠ 0 := by exact_mod_cast hp.ne'
  obtain ⟨s, hs⟩ := calcInverseLoop_bezout (by omega) (.inr (by exact_mod_cast hp)) (show 1 * M + 0 * (p : ℤ) = M by ring)
    (show 0 * M + 1 * (p : ℤ) = p by ring)
  refine ⟨(calcInverseLoop 1 0 M 0 1 p).fmod p, ?_, ?_⟩
  · rw [calcInverse, if_neg (not_not.mpr h)]
    exact if_neg hp'
  · have hcast := congrArg (Int.cast : ℤ → ZMod p) hs
    rw [h] at hcast
    push_cast at hcast
    rw [ZMod.natCast_self, mul_zero, add_zero] at hcast
    rw [Int.fmod_eq_emod_of_nonneg _ (by omega), ZMod.intCast_mod, hcast]

/-! ## Fractions -/

/-- A fraction of two zeros. -/
theorem fracToInt_zero_zero (p : ℤ) : fracToInt 0 0 p = .error .zeroDivisionError := by
  simp [fracToInt]

/-- A fraction whose denominator is 0. -/
theorem fracToInt_zero (hp : p ≠ 1) {up : ℤ} (hup : up ≠ 0) : fracToInt up 0 p = .error .typeError := by
  have hnum : ((Int.gcd up 0 : ℕ) : ℤ) ≠ 0 := by
    rw [Int.gcd_zero_right]
    omega
  have hnone : calcInverse (Int.fdiv 0 (Int.gcd up 0 : ℕ)) p = .ok none := by
    rw [Int.zero_fdiv]
    refine calcInverse_none ?_
    rwa [Int.gcd_zero_left, Int.natAbs_natCast]
  simp only [fracToInt]
  rw [if_neg hnum, hnone]

variable [Fact p.Prime]

/-- A number that is not 0 modulo a prime has no divisor in common with it. -/
theorem gcd_eq_one_of_ne_zero {M : ℤ} (h : (M : ZMod p) ≠ 0) : Int.gcd M p = 1 := by
  have hp : p.Prime := Fact.out
  change Nat.Coprime M.natAbs p
  refine ((hp.coprime_iff_not_dvd).mpr ?_).symm
  intro hdvd
  exact h ((ZMod.intCast_zmod_eq_zero_iff_dvd M p).mpr (Int.natCast_dvd.mpr hdvd))

/-- A fraction whose denominator is not 0 modulo the prime. -/
theorem fracToInt_of_ne_zero (up : ℤ) {down : ℤ} (h : (down : ZMod p) ≠ 0) :
    ∃ e, fracToInt up down p = .ok e ∧ (e : ZMod p) * down = up := by
  have hp : p.Prime := Fact.out
  have hdown : down ≠ 0 := by
    rintro rfl
    exact h Int.cast_zero
  have hnum : ((Int.gcd up down : ℕ) : ℤ) ≠ 0 := by
    rw [ne_eq, Nat.cast_eq_zero, Int.gcd_eq_zero_iff]
    exact fun h0 => hdown h0.2
  obtain ⟨up', hup'⟩ := Int.gcd_dvd_left up down
  obtain ⟨down', hdown'⟩ := Int.gcd_dvd_right up down
  have hup : up.fdiv (Int.gcd up down : ℕ) = up' := by
    have hcancel := Int.mul_fdiv_cancel_left up' hnum
    rwa [← hup'] at hcancel
  have hdiv : down.fdiv (Int.gcd up down : ℕ) = down' := by
    have hcancel := Int.mul_fdiv_cancel_left down' hnum
    rwa [← hdown'] at hcancel
  have hne : (down' : ZMod p) ≠ 0 := by
    intro h0
    rw [hdown', Int.cast_mul, h0, mul_zero] at h
    exact h rfl
  obtain ⟨inverse, hinv, hone⟩ := calcInverse_some hp.pos (gcd_eq_one_of_ne_zero hne)
  refine ⟨(up' * inverse).fmod p, ?_, ?_⟩
  · simp only [fracToInt]
    rw [if_neg hnum, hup, hdiv, hinv]
  · rw [Int.fmod_eq_emod_of_nonneg _ (by omega), ZMod.intCast_mod]
    have hupc := congrArg (Int.cast : ℤ → ZMod p) hup'
    have hdownc := congrArg (Int.cast : ℤ → ZMod p) hdown'
    push_cast at hupc hdownc ⊢
    rw [hupc, hdownc]
    linear_combination (Int.gcd up down : ZMod p) * (up' : ZMod p) * hone

/-! ## Points -/

/-- The group of the curve of the parameters `a` and `b` over the residues modulo `p`. -/
abbrev CurveGroup (p : ℕ) [Fact p.Prime] (a b : ℤ) := (ShortCurve.curve (a : ZMod p) (b : ZMod p)).Point

variable {a b : ℤ}

/-- The tuple of a point, with 0 for the point at infinity. -/
def encode : CurveGroup p a b → Point
  | .zero => none
  | .some x y _ => some (x.val, y.val)

@[simp] theorem encode_zero : encode (0 : CurveGroup p a b) = none := rfl

@[simp] theorem encode_some {x y : ZMod p} (h : (ShortCurve.curve (a : ZMod p) b).Nonsingular x y) :
    encode (.some x y h) = some ((x.val : ℤ), (y.val : ℤ)) := rfl

/-- A residue read as a number and back. -/
theorem cast_val (x : ZMod p) : (((x.val : ℕ) : ℤ) : ZMod p) = x := by
  rw [Int.cast_natCast, ZMod.natCast_zmod_val]

/-- Reducing an integer. -/
theorem fmod_eq_val (z : ℤ) : z.fmod p = ((z : ZMod p).val : ℤ) := by
  rw [Int.fmod_eq_emod_of_nonneg _ (by omega), ZMod.val_intCast]

/-- The first coordinates of two points are the same for one point and for opposite points. -/
theorem eq_or_add_eq_zero {x₁ y₁ x₂ y₂ : ZMod p} {h₁ : (ShortCurve.curve (a : ZMod p) b).Nonsingular x₁ y₁}
    {h₂ : (ShortCurve.curve (a : ZMod p) b).Nonsingular x₂ y₂} :
    x₁ = x₂ ↔ (.some x₁ y₁ h₁ : CurveGroup p a b) = .some x₂ y₂ h₂ ∨ (.some x₁ y₁ h₁ + .some x₂ y₂ h₂ : CurveGroup p a b) = 0 := by
  rw [add_eq_zero_iff_eq_neg]
  exact WeierstrassCurve.Affine.Point.X_eq_iff

/-- `add_point` of two points that are neither the same nor opposite. -/
theorem addPoint_encode {P Q : CurveGroup p a b} (hP : P ≠ 0) (hQ : Q ≠ 0) (hne : P ≠ Q) (hsum : P + Q ≠ 0) :
    addPoint (encode P) (encode Q) p = .ok (encode (P + Q)) := by
  obtain _ | ⟨x₁, y₁, h₁⟩ := P
  · exact absurd rfl hP
  obtain _ | ⟨x₂, y₂, h₂⟩ := Q
  · exact absurd rfl hQ
  have hx : x₁ ≠ x₂ := fun hx => (eq_or_add_eq_zero.mp hx).elim hne hsum
  have hdown : (((x₂.val : ℤ) - x₁.val : ℤ) : ZMod p) = x₂ - x₁ := by rw [Int.cast_sub, cast_val, cast_val]
  have hup : (((y₂.val : ℤ) - y₁.val : ℤ) : ZMod p) = y₂ - y₁ := by rw [Int.cast_sub, cast_val, cast_val]
  obtain ⟨e, he, hslope⟩ := fracToInt_of_ne_zero ((y₂.val : ℤ) - y₁.val)
    (show (((x₂.val : ℤ) - x₁.val : ℤ) : ZMod p) ≠ 0 by rw [hdown]; exact sub_ne_zero.mpr hx.symm)
  rw [hdown, hup] at hslope
  obtain ⟨h₃, hadd⟩ := ShortCurve.add_chord h₁ h₂ hx hslope
  have hx3 : (e * e - x₁.val - x₂.val).fmod p = ((e * e - x₁ - x₂ : ZMod p).val : ℤ) := by
    rw [fmod_eq_val]
    push_cast
    rw [ZMod.natCast_zmod_val, ZMod.natCast_zmod_val]
  have hy3 : (e * (x₁.val - ((e * e - x₁ - x₂ : ZMod p).val : ℤ)) - y₁.val).fmod p =
      ((e * (x₁ - (e * e - x₁ - x₂)) - y₁ : ZMod p).val : ℤ) := by
    rw [fmod_eq_val]
    push_cast
    rw [ZMod.natCast_zmod_val, ZMod.natCast_zmod_val, ZMod.natCast_zmod_val]
  rw [hadd, encode_some, encode_some, encode_some, addPoint, he]
  simp only [bind, Except.bind, pure, Except.pure]
  rw [hx3, hy3]

/-- `add_point` of a point and itself, or of opposite points. -/
theorem addPoint_error {P Q : CurveGroup p a b} (hP : P ≠ 0) (hQ : Q ≠ 0) (h : P = Q ∨ P + Q = 0) :
    ∃ e, addPoint (encode P) (encode Q) p = .error e := by
  have hp : p.Prime := Fact.out
  obtain _ | ⟨x₁, y₁, h₁⟩ := P
  · exact absurd rfl hP
  obtain _ | ⟨x₂, y₂, h₂⟩ := Q
  · exact absurd rfl hQ
  obtain rfl : x₁ = x₂ := eq_or_add_eq_zero.mpr h
  rw [encode_some, encode_some, addPoint, sub_self]
  by_cases hup : (y₂.val : ℤ) - y₁.val = 0
  · rw [hup, fracToInt_zero_zero]
    exact ⟨.zeroDivisionError, rfl⟩
  · rw [fracToInt_zero hp.one_lt.ne' hup]
    exact ⟨.typeError, rfl⟩

/-- `double_point` of a point that is not of order two. -/
theorem doublePoint_encode {P : CurveGroup p a b} (hP : P ≠ 0) (hsum : P + P ≠ 0) :
    doublePoint (encode P) p a = .ok (encode (P + P)) := by
  obtain _ | ⟨x, y, h⟩ := P
  · exact absurd rfl hP
  have hy : 2 * y ≠ 0 := mt (ShortCurve.add_self_eq_zero_iff h).mpr hsum
  have hdown : ((2 * (y.val : ℤ) : ℤ) : ZMod p) = 2 * y := by
    push_cast
    rw [ZMod.natCast_zmod_val]
  have hup : ((3 * (x.val : ℤ) * x.val + a : ℤ) : ZMod p) = 3 * x * x + a := by
    push_cast
    rw [ZMod.natCast_zmod_val]
  obtain ⟨e, he, hslope⟩ := fracToInt_of_ne_zero (3 * (x.val : ℤ) * x.val + a)
    (show ((2 * (y.val : ℤ) : ℤ) : ZMod p) ≠ 0 by rwa [hdown])
  rw [hdown, hup] at hslope
  obtain ⟨h₃, hadd⟩ := ShortCurve.add_tangent h hy hslope
  have hx3 : (e * e - 2 * x.val).fmod p = ((e * e - 2 * x : ZMod p).val : ℤ) := by
    rw [fmod_eq_val]
    push_cast
    rw [ZMod.natCast_zmod_val]
  have hy3 : (e * (x.val - ((e * e - 2 * x : ZMod p).val : ℤ)) - y.val).fmod p =
      ((e * (x - (e * e - 2 * x)) - y : ZMod p).val : ℤ) := by
    rw [fmod_eq_val]
    push_cast
    rw [ZMod.natCast_zmod_val, ZMod.natCast_zmod_val, ZMod.natCast_zmod_val]
  rw [hadd, encode_some, encode_some, doublePoint, he]
  simp only [bind, Except.bind, pure, Except.pure]
  rw [hx3, hy3]

/-- `double_point` of a point of order two. -/
theorem doublePoint_error (hp2 : p ≠ 2) {P : CurveGroup p a b} (hP : P ≠ 0) (hsum : P + P = 0) :
    doublePoint (encode P) p a = .error .typeError := by
  have hp : p.Prime := Fact.out
  obtain _ | ⟨x, y, h⟩ := P
  · exact absurd rfl hP
  have hy2 : 2 * y = 0 := (ShortCurve.add_self_eq_zero_iff h).mp hsum
  have htwo : (2 : ZMod p) ≠ 0 := by
    intro h0
    have hdvd : p ∣ 2 := (ZMod.natCast_eq_zero_iff 2 p).mp (by exact_mod_cast h0)
    exact hp2 ((Nat.prime_dvd_prime_iff_eq hp Nat.prime_two).mp hdvd)
  have hy : y = 0 := (mul_eq_zero.mp hy2).resolve_left htwo
  have hup : (3 * (x.val : ℤ) * x.val + a : ℤ) ≠ 0 := by
    intro h0
    have hcast := congrArg (Int.cast : ℤ → ZMod p) h0
    push_cast at hcast
    rw [ZMod.natCast_zmod_val] at hcast
    exact ShortCurve.ne_zero_of_nonsingular h hy2 hcast
  rw [encode_some, doublePoint, hy, ZMod.val_zero, Nat.cast_zero, mul_zero, fracToInt_zero hp.one_lt.ne' hup]
  rfl

/-! ## The loop over the digits -/

@[simp] theorem multPoint_zero (P : Point) (p a : ℤ) : multPoint P 0 p a = .ok none := rfl

@[simp] theorem multPoint_one (P : Point) (p a : ℤ) : multPoint P 1 p a = .ok P := by cases P <;> rfl

/-- The last digit is the last turn. -/
theorem multPoint_step (P : Point) {k : ℕ} (hk : 2 ≤ k) (p a : ℤ) :
    multPoint P k p a = multPoint P (k / 2) p a >>= fun Q => multStep P p a Q (Nat.digitChar (k % 2)) := by
  rw [multPoint, multPoint, Nat.toDigits_of_base_le (by decide) hk, List.foldlM_append]
  refine bind_congr fun Q => ?_
  rw [List.foldlM_cons]
  exact bind_pure _

/-- A turn whose digit is 0. -/
theorem multStep_zero (P Q : Point) (p a : ℤ) : multStep P p a Q '0' = doublePoint Q p a := by
  rw [multStep]
  exact bind_pure _

/-- A turn whose digit is 1. -/
theorem multStep_one (P Q : Point) (p a : ℤ) :
    multStep P p a Q '1' = doublePoint Q p a >>= fun Q => addPoint P Q p := rfl

/-- The turn to the multiple `m` meets neither the point at infinity nor, in an addition, the point itself. -/
def Clear (P : CurveGroup p a b) (m : ℕ) : Prop := m • P ≠ 0 ∧ (m % 2 = 1 → (m - 1) • P ≠ 0 ∧ (m - 2) • P ≠ 0)

/-- No turn of the loop for `k` does: the multiples are the heads of the binary numeral of `k`. -/
def NeverInfinite (P : CurveGroup p a b) (k : ℕ) : Prop := ∀ i, 2 ≤ k / 2 ^ i → Clear P (k / 2 ^ i)

/-- The heads of the numeral are the numeral and the heads of its half. -/
theorem neverInfinite_iff (P : CurveGroup p a b) (k : ℕ) : NeverInfinite P k ↔ (2 ≤ k → Clear P k) ∧ NeverInfinite P (k / 2) := by
  have hhalf : ∀ i, k / 2 ^ (i + 1) = k / 2 / 2 ^ i := fun i => by rw [Nat.div_div_eq_div_mul, pow_succ, mul_comm]
  constructor
  · intro h
    refine ⟨fun hk => ?_, fun i hi => ?_⟩
    · have h0 := h 0
      rw [pow_zero, Nat.div_one] at h0
      exact h0 hk
    · have hi' := h (i + 1)
      rw [hhalf] at hi'
      exact hi' hi
  · rintro ⟨h0, h⟩ i hi
    cases i with
    | zero =>
      rw [pow_zero, Nat.div_one] at hi ⊢
      exact h0 hi
    | succ i =>
      rw [hhalf] at hi ⊢
      exact h i hi

/-- In a run that is clear no multiple on the way is the point at infinity. -/
theorem NeverInfinite.ne_zero {P : CurveGroup p a b} (hP : P ≠ 0) {k : ℕ} (h : NeverInfinite P k) (hk : 1 ≤ k) : k • P ≠ 0 := by
  rcases Nat.eq_or_lt_of_le hk with rfl | hlt
  · rwa [one_nsmul]
  · exact (((neverInfinite_iff P k).mp h).1 hlt).1

/-- Below the order of the point every run is clear. -/
theorem neverInfinite_of_lt {P : CurveGroup p a b} {k : ℕ} (h : ∀ m, 1 ≤ m → m ≤ k → m • P ≠ 0) : NeverInfinite P k := by
  intro i hi
  have hle : k / 2 ^ i ≤ k := Nat.div_le_self _ _
  exact ⟨h _ (by omega) hle, fun hodd => ⟨h _ (by omega) (by omega), h _ (by omega) (by omega)⟩⟩

/-- The double of the multiple at half the number. -/
theorem double_half (P : CurveGroup p a b) (k : ℕ) : (k / 2) • P + (k / 2) • P = (k - k % 2) • P := by
  rw [← add_nsmul]
  congr 1
  omega

/-- The sum of the point and the multiple before. -/
theorem add_pred (P : CurveGroup p a b) {k : ℕ} (hk : 1 ≤ k) : P + (k - 1) • P = k • P := by
  rw [← succ_nsmul', Nat.sub_add_cancel hk]

/-- The multiple before is the point itself when the one before that is at infinity. -/
theorem self_eq_pred_iff (P : CurveGroup p a b) {k : ℕ} (hk : 2 ≤ k) : P = (k - 1) • P ↔ (k - 2) • P = 0 := by
  have hsplit : (k - 1) • P = P + (k - 2) • P := by
    rw [← succ_nsmul']
    congr 1
    omega
  rw [hsplit, left_eq_add]

/-- A clear turn computes the next multiple. -/
theorem multStep_clear {P : CurveGroup p a b} (hP : P ≠ 0) {k : ℕ} (hk : 2 ≤ k) (hhalf : (k / 2) • P ≠ 0) (hclear : Clear P k) :
    multStep (encode P) p a (encode ((k / 2) • P)) (Nat.digitChar (k % 2)) = .ok (encode (k • P)) := by
  have hdouble := double_half P k
  rcases Nat.mod_two_eq_zero_or_one k with heven | hodd
  · rw [heven, Nat.sub_zero] at hdouble
    rw [heven, show Nat.digitChar 0 = '0' from rfl, multStep_zero, doublePoint_encode hhalf (by rw [hdouble]; exact hclear.1),
      hdouble]
  · obtain ⟨hpred, hpred2⟩ := hclear.2 hodd
    have hsum := add_pred P (show 1 ≤ k by omega)
    have hne : P ≠ (k - 1) • P := mt (self_eq_pred_iff P hk).mp hpred2
    rw [hodd] at hdouble
    rw [hodd, show Nat.digitChar 1 = '1' from rfl, multStep_one,
      doublePoint_encode hhalf (by rw [hdouble]; exact hpred), hdouble]
    change addPoint (encode P) (encode ((k - 1) • P)) p = _
    rw [addPoint_encode hP hpred hne (by rw [hsum]; exact hclear.1), hsum]

/-- A turn that is not clear raises. -/
theorem multStep_error (hp2 : p ≠ 2) {P : CurveGroup p a b} (hP : P ≠ 0) {k : ℕ} (hk : 2 ≤ k) (hhalf : (k / 2) • P ≠ 0)
    (hclear : ¬Clear P k) : ∃ e, multStep (encode P) p a (encode ((k / 2) • P)) (Nat.digitChar (k % 2)) = .error e := by
  have hdouble := double_half P k
  rcases Nat.mod_two_eq_zero_or_one k with heven | hodd
  · have hzero : k • P = 0 := by
      by_contra h
      exact hclear ⟨h, fun hodd => absurd (heven.symm.trans hodd) (by decide)⟩
    rw [heven, Nat.sub_zero, hzero] at hdouble
    rw [heven, show Nat.digitChar 0 = '0' from rfl, multStep_zero]
    exact ⟨_, doublePoint_error hp2 hhalf hdouble⟩
  · rw [hodd] at hdouble
    rw [hodd, show Nat.digitChar 1 = '1' from rfl, multStep_one]
    by_cases hpred : (k - 1) • P = 0
    · rw [doublePoint_error hp2 hhalf (by rw [hdouble, hpred])]
      exact ⟨.typeError, rfl⟩
    · have hsum := add_pred P (show 1 ≤ k by omega)
      have hmeet : P = (k - 1) • P ∨ P + (k - 1) • P = 0 := by
        by_cases hzero : k • P = 0
        · exact .inr (by rw [hsum, hzero])
        · refine .inl ((self_eq_pred_iff P hk).mpr ?_)
          by_contra h
          exact hclear ⟨hzero, fun _ => ⟨hpred, h⟩⟩
      rw [doublePoint_encode hhalf (by rw [hdouble]; exact hpred), hdouble]
      exact addPoint_error hP hpred hmeet

/-- A run that is clear throughout computes the multiple. -/
theorem multPoint_encode {P : CurveGroup p a b} (hP : P ≠ 0) {k : ℕ} (h : NeverInfinite P k) :
    multPoint (encode P) k p a = .ok (encode (k • P)) := by
  induction k using Nat.strong_induction_on with
  | _ k ih =>
    obtain ⟨hclear, hrest⟩ := (neverInfinite_iff P k).mp h
    rcases Nat.lt_or_ge k 2 with hlt | hk
    · interval_cases k
      · rw [multPoint_zero, zero_nsmul, encode_zero]
      · rw [multPoint_one, one_nsmul]
    · rw [multPoint_step _ hk, ih (k / 2) (by omega) hrest]
      exact multStep_clear hP hk (hrest.ne_zero hP (by omega)) (hclear hk)

/-- A run that is not clear raises. -/
theorem multPoint_error (hp2 : p ≠ 2) {P : CurveGroup p a b} (hP : P ≠ 0) {k : ℕ} (h : ¬NeverInfinite P k) :
    ∃ e, multPoint (encode P) k p a = .error e := by
  induction k using Nat.strong_induction_on with
  | _ k ih =>
    have hk : 2 ≤ k := by
      by_contra hlt
      refine h fun i hi => ?_
      have := Nat.div_le_self k (2 ^ i)
      omega
    rw [multPoint_step _ hk]
    by_cases hrest : NeverInfinite P (k / 2)
    · have hclear : ¬Clear P k := fun hc => h ((neverInfinite_iff P k).mpr ⟨fun _ => hc, hrest⟩)
      rw [multPoint_encode hP hrest]
      exact multStep_error hp2 hP hk (hrest.ne_zero hP (by omega)) hclear
    · obtain ⟨e, he⟩ := ih (k / 2) (by omega) hrest
      rw [he]
      exact ⟨e, rfl⟩

end Sm2

end AuthVideo
