import AuthVideo.Lemmas.Answered
import AuthVideo.Lemmas.HonestRun

/-!
# Theorem 34: which values pass the random-number check of the centre

The check is a quadratic congruence in the received value. Its roots modulo a prime are the values at the sum and at the difference
of the two nonces, and modulo `p q` a root for each prime can be chosen on its own.
-/

namespace AuthVideo

open ChebyshevValue

/-- `SharedKey_Gen2` accepts a message. -/
def Ctx.Accepts (Γ : Ctx) (C : Center) (N2 TC QID2 HM3 : Option Int) (s : Server) : Prop :=
  ∃ result, Γ.sharedKeyGen2 C N2 TC QID2 HM3 s = .ok (some result)

instance (Γ : Ctx) (C : Center) (N2 TC QID2 HM3 : Option Int) (s : Server) : Decidable (Γ.Accepts C N2 TC QID2 HM3 s) :=
  match h : Γ.sharedKeyGen2 C N2 TC QID2 HM3 s with
  | .ok (some result) => isTrue ⟨result, h⟩
  | .ok none => isFalse fun ⟨_, hresult⟩ => nomatch h.symm.trans hresult
  | .error _ => isFalse fun ⟨_, hresult⟩ => nomatch h.symm.trans hresult

/-- Modulo `r` a value is the one at the sum of the nonces, or the one at their difference. -/
def Center.Root (C : Center) (r a b TC : Nat) : Prop :=
  (TC : Int) % r = chebyshevMatrix (a + b : Nat) C.pk C.N % r ∨
    (TC : Int) % r = chebyshevMatrix ((a : Int) - b).natAbs C.pk C.N % r

instance (C : Center) (r a b TC : Nat) : Decidable (C.Root r a b TC) := inferInstanceAs (Decidable (_ ∨ _))

section Roots

variable {a b TC N r : Nat} {x : Int}

/-- The check asks for a product of two differences. -/
theorem nonceTest_iff_dvd :
    (chebyshevMatrix a x N * chebyshevMatrix a x N + chebyshevMatrix b x N * chebyshevMatrix b x N + TC * TC) % N =
        (2 * chebyshevMatrix a x N * chebyshevMatrix b x N * TC + 1) % N ↔
      (N : Int) ∣ (TC - chebT (a + b) x) * (TC - chebT ((a : Int) - b).natAbs x) := by
  have hquadratic := congrArg (Int.cast : Int → ZMod N) (chebT_quadratic a b x TC)
  simp only [chebyshevMatrix_eq]
  rw [← ZMod.intCast_eq_intCast_iff', ← ZMod.intCast_zmod_eq_zero_iff_dvd, ← hquadratic, ← sub_eq_zero]
  push_cast
  ring_nf

/-- A value is another one modulo a divisor of the modulus. -/
theorem emod_eq_iff_dvd (hr : r ∣ N) (n : Nat) :
    (TC : Int) % r = chebyshevMatrix n x N % r ↔ (r : Int) ∣ TC - chebT n x := by
  have hdvd : (r : Int) ∣ N := Int.natCast_dvd_natCast.mpr hr
  rw [chebyshevMatrix_eq, Int.emod_emod_of_dvd _ hdvd, Int.emod_eq_emod_iff_emod_sub_eq_zero]
  exact Int.dvd_iff_emod_eq_zero.symm

/-- A prime divides the product when it divides one of the differences. -/
theorem Center.root_iff {C : Center} (hr : r.Prime) (hdvd : r ∣ C.N) :
    C.Root r a b TC ↔ (r : Int) ∣ (TC - chebT (a + b) C.pk) * (TC - chebT ((a : Int) - b).natAbs C.pk) := by
  rw [Center.Root, emod_eq_iff_dvd hdvd, emod_eq_iff_dvd hdvd]
  exact (Nat.prime_iff_prime_int.mp hr).dvd_mul.symm

/-- Modulo the product of two primes the roots are those modulo each of them. -/
theorem Center.nonceTest_iff_roots {C : Center} (hp : C.p.Prime) (hq : C.q.Prime) (hpq : C.p ≠ C.q) :
    C.NonceTest a b TC ↔ C.Root C.p a b TC ∧ C.Root C.q a b TC := by
  have hcoprime : IsCoprime (C.p : Int) (C.q : Int) := Nat.isCoprime_iff_coprime.mpr ((Nat.coprime_primes hp hq).mpr hpq)
  have hproduct : ((C.N : Nat) : Int) = C.p * C.q := by rw [Center.N, Nat.cast_mul]
  have htest : C.NonceTest a b TC ↔
      (C.N : Int) ∣ (TC - chebT (a + b) C.pk) * (TC - chebT ((a : Int) - b).natAbs C.pk) := by
    rw [← nonceTest_iff_dvd, Center.NonceTest]
    simp only [Center.chebyshevMatrix_pk]
    exact_mod_cast Iff.rfl
  rw [htest, C.root_iff hp (Dvd.intro _ rfl), C.root_iff hq (Dvd.intro_left _ rfl), hproduct]
  constructor
  · intro h
    exact ⟨dvd_of_mul_right_dvd h, dvd_of_mul_left_dvd h⟩
  · rintro ⟨hdp, hdq⟩
    exact hcoprime.mul_dvd hdp hdq

end Roots

/-- What an accepted message has passed. -/
theorem Ctx.nonceTest_of_accepts {Γ : Ctx} {C : Center} {s : Server} {A N2 : Int} {a b1 TC : Nat} {QID2 HM3 : Option Int}
    (hA : s.A = some A) (ha : s.a = some (a : Int)) (hb : Int.xor (chebyshevMatrix A C.pk C.N) N2 = b1)
    (h : Γ.Accepts C (some N2) (some (TC : Int)) QID2 HM3 s) : C.NonceTest a b1 TC := by
  obtain ⟨⟨TC1, KS, QID3, HM5⟩, hgen⟩ := h
  obtain ⟨z, w, n2, tc, qid2, hpass, -⟩ := Ctx.sharedKeyGen2_eq_some hgen
  obtain rfl : A = z := Option.some.inj (hA.symm.trans hpass.stored)
  obtain rfl : (a : Int) = w := Option.some.inj (ha.symm.trans hpass.drawn)
  obtain rfl : N2 = n2 := Option.some.inj hpass.N2_eq
  obtain rfl : (TC : Int) = tc := Option.some.inj hpass.TC_eq
  have hnonce := hpass.nonce
  simp only [hb, Center.chebyshevMatrix_pk] at hnonce
  unfold Center.NonceTest
  exact_mod_cast hnonce

/-- Theorem 34 (roots of the check). A value that `SharedKey_Gen2` accepts is, modulo each of the two primes, the value at the sum of the
nonces or the value at their difference; and the check passes exactly the numbers that are. -/
theorem accepted_is_root {Γ : Ctx} {C : Center} (hp : C.p.Prime) (hq : C.q.Prime) (hpq : C.p ≠ C.q) {s : Server} {A N2 : Int}
    {a b1 : Nat} (hA : s.A = some A) (ha : s.a = some (a : Int)) (hb : Int.xor (chebyshevMatrix A C.pk C.N) N2 = b1) (TC : Nat)
    (QID2 HM3 : Option Int) :
    (Γ.Accepts C (some N2) (some (TC : Int)) QID2 HM3 s → C.Root C.p a b1 TC ∧ C.Root C.q a b1 TC) ∧
      (C.NonceTest a b1 TC ↔ C.Root C.p a b1 TC ∧ C.Root C.q a b1 TC) :=
  ⟨fun h => (C.nonceTest_iff_roots hp hq hpq).mp (Ctx.nonceTest_of_accepts hA ha hb h), C.nonceTest_iff_roots hp hq hpq⟩

/-- The session of the sample centre in which it has drawn the nonce 2 for a device with the parameter 1 and the pseudonym 1. -/
def nonceSession : Server := ⟨none, some 1, some 2, some 1⟩

/-- A device with the nonce 1 sends the value at the difference of the nonces; the mask is 362. It is a root, which the centre
accepts. -/
theorem accepted_is_root_difference : sampleCenter.Root 3 2 1 362 ∧ sampleCenter.Root (2 ^ 521 - 1) 2 1 362 := by
  have hb : Int.xor (chebyshevMatrix 1 sampleCenter.pk sampleCenter.N) 363 = (1 : Nat) := by decide +kernel
  exact (accepted_is_root (Γ := sampleCtx) (s := nonceSession) sampleHonest.p_prime sampleHonest.q_prime sampleHonest.distinct rfl
    rfl hb 362 (some 1) (some (sampleCtx.sm3Nat [363, 362, 1]))).1 (by decide +kernel)

/-- It is not the value at their sum, which an honest device sends. -/
theorem difference_accepted : ¬∀ (Γ : Ctx) (C : Center), C.p.Prime → C.q.Prime → C.p ≠ 2 → C.q ≠ 2 → C.p ≠ C.q →
    ∀ (s : Server) (A N2 : Int) (a b1 TC : Nat) (QID2 HM3 : Option Int), s.A = some A → s.a = some (a : Int) →
      Int.xor (chebyshevMatrix A C.pk C.N) N2 = b1 → Γ.Accepts C (some N2) (some (TC : Int)) QID2 HM3 s →
        (TC : Int) % C.N = chebyshevMatrix (a + b1 : Nat) C.pk C.N % C.N := by
  intro h
  have hsum := h sampleCtx sampleCenter sampleHonest.p_prime sampleHonest.q_prime sampleHonest.p_odd sampleHonest.q_odd
    sampleHonest.distinct nonceSession 1 363 2 1 362 (some 1) (some (sampleCtx.sm3Nat [363, 362, 1])) rfl rfl
    (by decide +kernel) (by decide +kernel)
  have hne : (362 : Int) % sampleCenter.N ≠ chebyshevMatrix (3 : Nat) sampleCenter.pk sampleCenter.N % sampleCenter.N := by
    decide +kernel
  exact hne hsum

end AuthVideo
