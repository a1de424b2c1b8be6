import AuthVideo.Lemmas.DeviceRuns
import AuthVideo.Lemmas.Gmssl
import AuthVideo.ThreeParty

/-!
# Theorems 24 to 26: the Chebyshev maps of the simulation

The map at `n` after the map at `m` is the map at `n m`, so any two of them commute, whatever the modulus. The keys of all the
protocols agree because of it. The square-and-multiply of `chebyshev_matrix` and the recurrence of `chebyshev_polynomial` give
the same value.
-/

namespace AuthVideo

/-- Two evaluations commute. -/
theorem chebyshevMatrix_comm (n m : ℕ) (x : ℤ) (p : ℕ) :
    chebyshevMatrix n (chebyshevMatrix m x p) p = chebyshevMatrix m (chebyshevMatrix n x p) p := by
  rw [chebyshevMatrix_comp, chebyshevMatrix_comp, Nat.mul_comm]

/-- Theorem 24 (semigroup). For all indices, all integers and every modulus, prime or not, the evaluation at `n` of the evaluation
at `m` is the evaluation at `n m`, and the two may be exchanged. -/
theorem chebyshev_semigroup (n m : ℕ) (x : ℤ) (p : ℕ) :
    chebyshevMatrix n (chebyshevMatrix m x p) p = chebyshevMatrix (n * m : ℕ) x p ∧
      chebyshevMatrix n (chebyshevMatrix m x p) p = chebyshevMatrix m (chebyshevMatrix n x p) p :=
  ⟨chebyshevMatrix_comp n m x p, chebyshevMatrix_comm n m x p⟩

/-- Theorem 25 (fast path). For every index, integer and modulus the powers of the transfer matrix give what the recurrence
gives. -/
theorem chebyshev_paths_agree (n : ℕ) (x : ℤ) (p : ℕ) : chebyshevMatrix n x p = chebyshevPolynomial n x p := by
  rw [chebyshevMatrix_eq, chebyshevPolynomial_eq]

/-! ## Three parties -/

section ThreeParties

variable {Γ : Ctx} {hash : Text → Nat}

/-- Without a limit on conversions, numbers that are not negative are joined and hashed. -/
theorem Ctx.hashCat_returns (hlimit : Γ.maxStrDigits = 0) {vs : List Int} (hne : vs ≠ []) (hvs : ∀ v ∈ vs, 0 ≤ v) :
    ∃ u, Γ.hashCat hash vs = .ok u := by
  have hns : vs.map some = fields (vs.map Int.toNat) := by
    unfold fields
    rw [List.map_map]
    refine List.map_congr_left ?_
    intro v hv
    rw [Function.comp_apply, Int.toNat_of_nonneg (hvs v hv)]
  have hcat := Ctx.cat_fields Γ (vs.map Int.toNat) (by simpa using hne)
  rw [if_pos (Ctx.fits_of_noLimit hlimit _)] at hcat
  refine ⟨hash (Nat.toDigits 10 (Decimal.concat (vs.map Int.toNat))), ?_⟩
  rw [Ctx.hashCat, hns, hcat, ok_bind, Ctx.str_natCast, if_pos (Ctx.fits_of_noLimit hlimit _)]
  rfl

/-- The exclusive or of two numbers that are not negative is not negative. -/
theorem xor_nonneg {a b : ℤ} (ha : 0 ≤ a) (hb : 0 ≤ b) : 0 ≤ Int.xor a b := by
  obtain ⟨m, rfl⟩ := Int.eq_ofNat_of_zero_le ha
  obtain ⟨n, rfl⟩ := Int.eq_ofNat_of_zero_le hb
  rw [Mask.xor_natCast]
  exact Int.natCast_nonneg _

/-- Without a limit on conversions `protocol` returns. -/
theorem Ctx.protocol_returns (hlimit : Γ.maxStrDigits = 0) (r : Draws) (hp : 1 ≤ r.p) :
    ∃ v, Γ.protocol hash r = .ok v := by
  have hcheb : ∀ n x : ℤ, 0 ≤ chebyshevMatrix n x r.p := chebyshevMatrix_nonneg (by omega)
  have hkey : ∀ n x m y : ℤ, 0 ≤ Int.xor (chebyshevMatrix n x r.p) (chebyshevMatrix m y r.p) := by
    intro n x m y
    exact xor_nonneg (hcheb n x) (hcheb m y)
  -- every value that is hashed is a name, a secret, a value of the polynomial or the exclusive or of two of these
  have hstep : ∀ (vs : List Int) (f : Nat → Except PyError Agreed), vs ≠ [] → (∀ v ∈ vs, 0 ≤ v) →
      (∀ u, ∃ v, f u = .ok v) → ∃ v, (Γ.hashCat hash vs >>= f) = .ok v := by
    intro vs f hne hvs hf
    obtain ⟨u, hu⟩ : ∃ u, Γ.hashCat hash vs = .ok u := Ctx.hashCat_returns hlimit hne hvs
    rw [hu, ok_bind]
    exact hf u
  unfold Ctx.protocol
  refine hstep _ _ (by simp) (by simp) ?_
  intro tA
  refine hstep _ _ (by simp) (by simp) ?_
  intro tB
  refine hstep _ _ (by simp) (by simp [hcheb, hkey]) ?_
  intro uBs
  refine hstep _ _ (by simp) (by simp [hcheb]) ?_
  intro uBa
  refine hstep _ _ (by simp) (by simp [hcheb]) ?_
  intro SK
  refine hstep _ _ (by simp) (by simp [hcheb, hkey]) ?_
  intro uAs
  refine hstep _ _ (by simp) (by simp [hcheb]) ?_
  intro uAb
  refine hstep _ _ (by simp) (by simp [hcheb, hkey]) ?_
  intro uSa
  refine hstep _ _ (by simp) (by simp [hcheb, hkey]) ?_
  intro uSb
  refine hstep _ _ (by simp) (by simp [hcheb]) ?_
  intro SK2
  exact ⟨_, rfl⟩

/-- Theorem 26 (three parties). Whatever the draws with a modulus from 1 on and whatever the hash, the keys that two parties hold
agree in a run that returns, and with them the verification values and the session keys. Without a limit on conversions every run
returns. -/
theorem three_party_agreement (hash : Text → Nat) (r : Draws) (hp : 1 ≤ r.p) :
    (∀ v, Γ.protocol hash r = .ok v →
        v.KAB = v.KBA ∧ v.KAs = v.KSA ∧ v.KBs = v.KSB ∧ v.uAs = v.uSa ∧ v.uBs = v.uSb ∧ v.SK = v.SK2) ∧
      (Γ.maxStrDigits = 0 → ∃ v, Γ.protocol hash r = .ok v) := by
  refine ⟨?_, fun hlimit => Ctx.protocol_returns hlimit r hp⟩
  intro v hv
  simp only [Ctx.protocol, bind_eq_ok, pure_eq_ok, Except.ok.injEq] at hv
  obtain ⟨tA, htA, tB, htB, uBs, huBs, uBa, huBa, SK, hSK, uAs, huAs, uAb, huAb, uSa, huSa, uSb, huSb, SK2, hSK2, rfl⟩ := hv
  simp only [Mask.xor_cancel_right] at huBs huAs ⊢
  -- the two sides of each key evaluate the same two indices, in the other order
  have hKAB := chebyshevMatrix_comm r.a r.b r.x r.p
  have hKAs : Int.xor (chebyshevMatrix r.a (chebyshevMatrix r.c r.x r.p) r.p)
      (chebyshevMatrix tA (chebyshevMatrix r.c r.x r.p) r.p) =
      Int.xor (chebyshevMatrix r.c (chebyshevMatrix tA r.x r.p) r.p)
        (chebyshevMatrix r.c (chebyshevMatrix r.a r.x r.p) r.p) := by
    rw [Mask.xor_comm, chebyshevMatrix_comm tA r.c, chebyshevMatrix_comm r.a r.c]
  have hKBs : Int.xor (chebyshevMatrix r.b (chebyshevMatrix r.d r.x r.p) r.p)
      (chebyshevMatrix tB (chebyshevMatrix r.d r.x r.p) r.p) =
      Int.xor (chebyshevMatrix r.d (chebyshevMatrix tB r.x r.p) r.p)
        (chebyshevMatrix r.d (chebyshevMatrix r.b r.x r.p) r.p) := by
    rw [Mask.xor_comm, chebyshevMatrix_comm tB r.d, chebyshevMatrix_comm r.b r.d]
  rw [hKAs] at huAs
  rw [hKBs] at huBs
  rw [hKAB] at hSK2
  exact ⟨hKAB, hKAs, hKBs, Except.ok.inj (huAs.symm.trans huSa), Except.ok.inj (huBs.symm.trans huSb),
    Except.ok.inj (hSK.symm.trans hSK2)⟩

end ThreeParties

/-- Modulo 7, with the names 5, 6 and 7 and SM3 for the hash. -/
theorem three_party_agreement_seven :
    (∀ v, gmCtx.protocol gmCtx.sm3 ⟨2, 7, 3, 4, 7, 5, 6, 2, 3, 4, 5⟩ = .ok v →
        v.KAB = v.KBA ∧ v.KAs = v.KSA ∧ v.KBs = v.KSB ∧ v.uAs = v.uSa ∧ v.uBs = v.uSb ∧ v.SK = v.SK2) ∧
      (gmCtx.maxStrDigits = 0 → ∃ v, gmCtx.protocol gmCtx.sm3 ⟨2, 7, 3, 4, 7, 5, 6, 2, 3, 4, 5⟩ = .ok v) :=
  three_party_agreement gmCtx.sm3 ⟨2, 7, 3, 4, 7, 5, 6, 2, 3, 4, 5⟩ (by decide)

end AuthVideo
