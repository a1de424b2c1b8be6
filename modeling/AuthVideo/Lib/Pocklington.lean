import AuthVideo.Lib.SquareMultiply
import Mathlib.FieldTheory.Finite.Basic
import Mathlib.Data.Nat.Log

/-!
# Primality by Pocklington's criterion

A number is prime when a part of its predecessor above its square root is factored into primes and a base has, modulo each prime
divisor, an order that this part divides. A certificate is the base and the factors; it is checked by an evaluation.
-/

namespace Pocklington

/-! ## The criterion -/

/-- The part divides the order of the base modulo each prime divisor. -/
theorem dvd_pred_of_prime_dvd {n F a r : ℕ} (hn : 1 < n) (hF : F ∣ n - 1) (hfermat : a ^ (n - 1) % n = 1)
    (hfactors : ∀ q, q.Prime → q ∣ F → Nat.gcd (a ^ ((n - 1) / q) % n - 1) n = 1) (hr : r.Prime) (hrn : r ∣ n) :
    F ∣ r - 1 := by
  have : Fact r.Prime := ⟨hr⟩
  have hcast : ∀ e, ((a ^ e % n : ℕ) : ZMod r) = (a : ZMod r) ^ e := by
    intro e
    rw [← Nat.cast_pow, ZMod.natCast_eq_natCast_iff]
    exact (Nat.mod_modEq _ _).of_dvd hrn
  have hpow : (a : ZMod r) ^ (n - 1) = 1 := by
    rw [← hcast, hfermat, Nat.cast_one]
  obtain ⟨k, hk⟩ := orderOf_dvd_of_pow_eq_one hpow
  -- The order leaves a factor `k` that has no prime in common with the part.
  have hcop : Nat.Coprime F k := by
    refine Nat.Coprime.symm (Nat.coprime_of_dvd ?_)
    intro q hq hqk hqF
    obtain ⟨c, rfl⟩ := hqk
    have hdiv : (n - 1) / q = orderOf (a : ZMod r) * c := by
      rw [hk, show orderOf (a : ZMod r) * (q * c) = q * (orderOf (a : ZMod r) * c) by ring]
      exact Nat.mul_div_cancel_left _ hq.pos
    have hone : ((a ^ ((n - 1) / q) % n : ℕ) : ZMod r) = 1 := by
      rw [hcast, hdiv, pow_mul, pow_orderOf_eq_one, one_pow]
    have hpos : 1 ≤ a ^ ((n - 1) / q) % n := by
      by_contra hzero
      rw [Nat.lt_one_iff.mp (not_le.mp hzero), Nat.cast_zero] at hone
      exact zero_ne_one hone
    have hdvd : r ∣ a ^ ((n - 1) / q) % n - 1 := by
      rw [← ZMod.natCast_eq_zero_iff, Nat.cast_sub hpos, hone, Nat.cast_one, sub_self]
    have hgcd := Nat.dvd_gcd hdvd hrn
    rw [hfactors q hq hqF] at hgcd
    exact hr.one_lt.not_ge (Nat.le_of_dvd Nat.one_pos hgcd)
  have horder : F ∣ orderOf (a : ZMod r) := by
    rw [hk] at hF
    exact hcop.dvd_of_dvd_mul_right hF
  have hne : (a : ZMod r) ≠ 0 := by
    intro hzero
    rw [hzero, zero_pow (by omega)] at hpow
    exact zero_ne_one hpow
  exact horder.trans (orderOf_dvd_of_pow_eq_one (ZMod.pow_card_sub_one_eq_one hne))

/-- Pocklington's criterion. -/
theorem prime_of_factors {n F a : ℕ} (hn : 1 < n) (hF : F ∣ n - 1) (hlarge : n < F * F) (hfermat : a ^ (n - 1) % n = 1)
    (hfactors : ∀ q, q.Prime → q ∣ F → Nat.gcd (a ^ ((n - 1) / q) % n - 1) n = 1) : n.Prime := by
  by_contra hcomposite
  have hr : n.minFac.Prime := Nat.minFac_prime (by omega)
  have hdvd := dvd_pred_of_prime_dvd hn hF hfermat hfactors hr (Nat.minFac_dvd n)
  have hle : F ≤ n.minFac - 1 := Nat.le_of_dvd (Nat.sub_pos_of_lt hr.one_lt) hdvd
  have hsq : n.minFac * n.minFac ≤ n := by
    rw [← pow_two]
    exact Nat.minFac_sq_le_self (by omega) hcomposite
  have hmul : F * F ≤ n.minFac * n.minFac := Nat.mul_le_mul (by omega) (by omega)
  omega

/-! ## Certificates -/

/-- The power `r * a ^ e` modulo `n`, on `bits` bits of the exponent. -/
def powMod (n : ℕ) : ℕ → ℕ → ℕ → ℕ → ℕ
  | 0, r, _, _ => r % n
  | bits + 1, r, a, e => powMod n bits (if e % 2 = 1 then r * a % n else r) (a * a % n) (e / 2)

/-- On enough bits it is the power. -/
theorem powMod_eq {n bits r a e : ℕ} (he : e < 2 ^ bits) : powMod n bits r a e = r * a ^ e % n := by
  induction bits generalizing r a e with
  | zero =>
    obtain rfl : e = 0 := by simpa using he
    simp [powMod]
  | succ bits ih =>
    have hhalf : e / 2 < 2 ^ bits := by
      rw [pow_succ] at he
      omega
    have hres : (if e % 2 = 1 then r * a % n else r) ≡ if e % 2 = 1 then r * a else r [MOD n] := by
      split
      · exact Nat.mod_modEq _ _
      · rfl
    rw [powMod, ih hhalf, ← SquareMultiply.step r a e]
    exact Nat.ModEq.mul hres ((Nat.mod_modEq _ _).pow _)

/-- The power of a base modulo `n`, for an exponent below `n`. -/
theorem powMod_log {n a e : ℕ} (he : e < n) : powMod n (Nat.log2 n + 1) 1 a e = a ^ e % n := by
  rw [powMod_eq (Nat.lt_trans he Nat.lt_log2_self), one_mul]

/-- The check of a certificate: the base and the factors of a part of the predecessor. -/
def check (n a : ℕ) (factors : List ℕ) : Bool :=
  1 < n ∧ (n - 1) % factors.prod = 0 ∧ n < factors.prod * factors.prod ∧ powMod n (Nat.log2 n + 1) 1 a (n - 1) = 1 ∧
    ∀ q ∈ factors, Nat.gcd (powMod n (Nat.log2 n + 1) 1 a ((n - 1) / q) - 1) n = 1

/-- A number with a certificate whose factors are prime is prime. -/
theorem prime_of_check {n a : ℕ} {factors : List ℕ} (hprime : ∀ q ∈ factors, q.Prime) (h : check n a factors = true) :
    n.Prime := by
  obtain ⟨hn, hdvd, hlarge, hfermat, hfactors⟩ := of_decide_eq_true h
  rw [powMod_log (by omega)] at hfermat
  refine prime_of_factors hn (Nat.dvd_of_mod_eq_zero hdvd) hlarge hfermat ?_
  intro q hq hqF
  obtain ⟨f, hf, hqf⟩ := (Prime.dvd_prod_iff hq.prime).mp hqF
  obtain rfl := (Nat.prime_dvd_prime_iff_eq hq (hprime f hf)).mp hqf
  rw [← powMod_log (Nat.lt_of_le_of_lt (Nat.div_le_self _ _) (by omega))]
  exact hfactors q hf

end Pocklington
