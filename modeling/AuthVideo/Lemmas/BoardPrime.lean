import AuthVideo.Board.Prime
import AuthVideo.Lemmas.Primality
import AuthVideo.Lib.SquareMultiply

/-!
# The primality test of the boards and that of the simulation

Below 2 to the power of 32 no product of two residues leaves its word, and the two tests are the same. Above, the powers of 256 are
lost: their fourth square is 2 to the power of 64.
-/

namespace AuthVideo

namespace PrimeNumber

/-! ## Exponentiation without overflow -/

/-- The product of two residues fits in a word. -/
theorem toNat_mul_mod {a b n : UInt64} (hn : n.toNat < 2 ^ 32) (ha : a.toNat < n.toNat) (hb : b.toNat < n.toNat) :
    (a * b % n).toNat = a.toNat * b.toNat % n.toNat := by
  have hfits : a.toNat * b.toNat < 2 ^ 64 :=
    calc a.toNat * b.toNat < 2 ^ 32 * 2 ^ 32 := Nat.mul_lt_mul'' (by omega) (by omega)
      _ = 2 ^ 64 := by norm_num
  rw [UInt64.toNat_mod, UInt64.toNat_mul, Nat.mod_eq_of_lt hfits]

/-- The lowest bit of a word. -/
theorem and_one_ne_zero_iff (e : UInt64) : e &&& 1 ≠ 0 ↔ e.toNat % 2 = 1 := by
  rw [ne_eq, ← UInt64.toNat_inj, UInt64.toNat_and, show (1 : UInt64).toNat = 1 from rfl, Nat.and_one_is_mod]
  simp only [UInt64.toNat_zero]
  omega

theorem toNat_shiftRight_one (e : UInt64) : (e >>> 1).toNat = e.toNat / 2 := by
  rw [UInt64.toNat_shiftRight, Nat.shiftRight_eq_div_pow]
  rfl

/-- The loop of `mod_pow` multiplies the result by the power of the base. -/
theorem modPowLoop_toNat {mod result base exp : UInt64} (hmod : mod.toNat < 2 ^ 32) (hresult : result.toNat < mod.toNat)
    (hbase : base.toNat < mod.toNat) :
    (modPowLoop mod result base exp).toNat = result.toNat * base.toNat ^ exp.toNat % mod.toNat := by
  have hpos : 0 < mod.toNat := Nat.lt_of_le_of_lt (Nat.zero_le _) hbase
  fun_induction modPowLoop mod result base exp with
  | case1 result base exp h ih =>
    simp only [dite_eq_ite] at ih
    have hprod := toNat_mul_mod hmod hresult hbase
    have hsq := toNat_mul_mod hmod hbase hbase
    have hres : (if exp &&& 1 ≠ 0 then result * base % mod else result).toNat =
        (if exp.toNat % 2 = 1 then result.toNat * base.toNat else result.toNat) % mod.toNat := by
      by_cases hbit : exp.toNat % 2 = 1
      · rw [if_pos ((and_one_ne_zero_iff exp).mpr hbit), if_pos hbit, hprod]
      · rw [if_neg (fun hb => hbit ((and_one_ne_zero_iff exp).mp hb)), if_neg hbit, Nat.mod_eq_of_lt hresult]
    rw [ih (by rw [hres]; exact Nat.mod_lt _ hpos) (by rw [hsq]; exact Nat.mod_lt _ hpos), hres, hsq, toNat_shiftRight_one,
      ← SquareMultiply.step result.toNat base.toNat exp.toNat]
    exact Nat.ModEq.mul (Nat.mod_modEq _ _) ((Nat.mod_modEq _ _).pow _)
  | case2 result base exp h =>
    have hzero : exp.toNat = 0 := by
      rw [UInt64.lt_iff_toNat_lt, UInt64.toNat_zero] at h
      omega
    rw [hzero, pow_zero, mul_one, Nat.mod_eq_of_lt hresult]

/-- Below 2 to the power of 32 `mod_pow` is the modular power. -/
theorem modPow_toNat {base exp mod : UInt64} (hone : 1 < mod.toNat) (hmod : mod.toNat < 2 ^ 32) :
    (modPow base exp mod).toNat = base.toNat ^ exp.toNat % mod.toNat := by
  have hbase : (base % mod).toNat = base.toNat % mod.toNat := UInt64.toNat_mod ..
  have hlt : (base % mod).toNat < mod.toNat := by
    rw [hbase]
    exact Nat.mod_lt _ (by omega)
  rw [modPow, modPowLoop_toNat hmod (by rwa [UInt64.toNat_one]) hlt, hbase, UInt64.toNat_one, one_mul, ← Nat.pow_mod]

/-! ## The two tests -/

/-- The draws of the boards, as those of the simulation: `2 + rand() % (n - 3)` is `randint(2, n - 2)`. -/
def drawn (rand : Nat → Nat) : Random where
  randint call lo hi := lo + rand call % 2 ^ 64 % (hi + 1 - lo)
  randint_mem call lo hi h := by
    have hlt : rand call % 2 ^ 64 % (hi + 1 - lo) < hi + 1 - lo := Nat.mod_lt _ (by omega)
    omega

/-- The loop that takes out the factors 2 does not overflow. -/
theorem splitTwos_toNat {r d : UInt64} (h : r.toNat + d.toNat < 2 ^ 64) :
    ((splitTwos r d).1.toNat, (splitTwos r d).2.toNat) = AuthVideo.splitTwos r.toNat d.toNat := by
  fun_induction splitTwos r d with
  | case1 r d hstep ih =>
    have hd : 0 < d.toNat := UInt64.lt_iff_toNat_lt.mp hstep.2
    have heven : d.toNat % 2 = 0 := by
      have := congrArg UInt64.toNat hstep.1
      rwa [UInt64.toNat_mod] at this
    have hr : (r + 1).toNat = r.toNat + 1 := by
      rw [UInt64.toNat_add, UInt64.toNat_one, Nat.mod_eq_of_lt (by omega)]
    have hhalf : (d / 2).toNat = d.toNat / 2 := UInt64.toNat_div ..
    rw [ih (by omega), hr, hhalf, AuthVideo.splitTwos.eq_def r.toNat, dif_pos ⟨heven, hd⟩]
  | case2 r d hstep =>
    have hstop : ¬(d.toNat % 2 = 0 ∧ 0 < d.toNat) := by
      rintro ⟨heven, hd⟩
      refine hstep ⟨UInt64.toNat_inj.mp ?_, UInt64.lt_iff_toNat_lt.mpr hd⟩
      rw [UInt64.toNat_mod]
      exact heven
    rw [AuthVideo.splitTwos, dif_neg hstop]

variable {n : UInt64}

/-- A difference that does not wrap. -/
theorem toNat_pred (hn : 0 < n.toNat) : (n - 1).toNat = n.toNat - 1 :=
  UInt64.toNat_sub_of_le n 1 (UInt64.le_iff_toNat_le.mpr hn)

/-- The comparison with `n - 1`. -/
theorem eq_pred_iff (hn : 0 < n.toNat) (x : UInt64) : x = n - 1 ↔ x.toNat = n.toNat - 1 := by
  rw [← UInt64.toNat_inj, toNat_pred hn]

theorem eq_one_iff (x : UInt64) : x = 1 ↔ x.toNat = 1 := by rw [← UInt64.toNat_inj, UInt64.toNat_one]

/-- The inner loops are the same. -/
theorem continueLoop_eq (hone : 1 < n.toNat) (hn : n.toNat < 2 ^ 32) (turns : ℕ) (x : UInt64) :
    continueLoop n turns x = squaresReach n.toNat turns x.toNat := by
  induction turns generalizing x with
  | zero => rfl
  | succ turns ih =>
    have hx : (modPow x 2 n).toNat = x.toNat ^ 2 % n.toNat := modPow_toNat hone hn
    simp only [continueLoop, squaresReach]
    rw [ih, hx]
    exact if_congr (by rw [eq_pred_iff (by omega), hx]) rfl rfl

/-- The base of a round. -/
theorem toNat_base (h3 : 3 < n.toNat) (hn : n.toNat < 2 ^ 32) (rand : ℕ → ℕ) (call : ℕ) :
    (2 + UInt64.ofNat (rand call) % (n - 3)).toNat = (drawn rand).randint call 2 (n.toNat - 2) := by
  have hsub : (n - 3).toNat = n.toNat - 3 :=
    UInt64.toNat_sub_of_le n 3 (UInt64.le_iff_toNat_le.mpr (show 3 ≤ n.toNat by omega))
  have hmod : rand call % 2 ^ 64 % (n.toNat - 3) < n.toNat - 3 := Nat.mod_lt _ (by omega)
  rw [UInt64.toNat_add, UInt64.toNat_mod, hsub, UInt64.toNat_ofNat', show (2 : UInt64).toNat = 2 from rfl,
    Nat.mod_eq_of_lt (by omega)]
  simp only [drawn, show n.toNat - 2 + 1 - 2 = n.toNat - 3 by omega]

/-- The rounds are the same. -/
theorem rounds_eq (h3 : 3 < n.toNat) (hn : n.toNat < 2 ^ 32) (rand : ℕ → ℕ) {r : UInt64} (hr : 0 < r.toNat) (d : UInt64)
    (k call : ℕ) :
    rounds rand n r d k call = if (drawn rand).rounds n.toNat r.toNat d.toNat k call then 1 else 0 := by
  induction k generalizing call with
  | zero => rfl
  | succ k ih =>
    have hx : (modPow (2 + UInt64.ofNat (rand call) % (n - 3)) d n).toNat = _ := modPow_toNat (by omega) hn
    rw [toNat_base h3 hn] at hx
    have hturns : (r - 1).toNat = r.toNat - 1 := toNat_pred hr
    simp only [rounds, Random.rounds]
    rw [continueLoop_eq (by omega) hn, hturns, hx, ih]
    simp only [eq_one_iff, eq_pred_iff (show 0 < n.toNat by omega), hx]
    split
    · rfl
    · split <;> rfl

/-- Below 2 to the power of 32 the boards' test is that of the simulation. -/
theorem millerRabin_eq (hn : n.toNat < 2 ^ 32) (rand : ℕ → ℕ) (k : ℤ) :
    millerRabin rand n k = if (drawn rand).millerRabin n.toNat k then 1 else 0 := by
  rw [millerRabin, Random.millerRabin]
  by_cases h1 : n.toNat ≤ 1
  · rw [if_pos (UInt64.le_iff_toNat_le.mpr h1), if_pos h1]
    rfl
  · rw [if_neg (fun h => h1 (UInt64.le_iff_toNat_le.mp h)), if_neg h1]
    by_cases h3 : n.toNat ≤ 3
    · have hsmall : n = 2 ∨ n = 3 := by
        have : n.toNat = 2 ∨ n.toNat = 3 := by omega
        exact this.imp UInt64.toNat_inj.mp UInt64.toNat_inj.mp
      rw [if_pos hsmall, if_pos h3]
      rfl
    · have hlarge : ¬(n = 2 ∨ n = 3) := by
        rintro (rfl | rfl) <;> exact h3 (by decide)
      have hparity : n % 2 = 0 ↔ n.toNat % 2 = 0 := by
        rw [← UInt64.toNat_inj, UInt64.toNat_mod]
        rfl
      rw [if_neg hlarge, if_neg h3]
      by_cases heven : n.toNat % 2 = 0
      · rw [if_pos (hparity.mpr heven), if_pos heven]
        rfl
      · rw [if_neg (fun h => heven (hparity.mp h)), if_neg heven]
        have hpred : (n - 1).toNat = n.toNat - 1 := toNat_pred (by omega)
        have hsplit := splitTwos_toNat (r := 0) (d := n - 1) (by rw [UInt64.toNat_zero]; omega)
        rw [UInt64.toNat_zero, hpred, Prod.ext_iff] at hsplit
        simp only at hsplit
        have hpos := splitTwos_pos (d := n.toNat - 1) (by omega) (by omega)
        simp only
        rw [← hsplit.1] at hpos
        rw [rounds_eq (by omega) hn rand hpos, hsplit.1, hsplit.2]

/-! ## Exponentiation with overflow -/

/-- A turn of the loop whose bit is set, or is not. -/
theorem modPowLoop_step {mod result base exp : UInt64} (h : 0 < exp) :
    modPowLoop mod result base exp =
      modPowLoop mod (if exp &&& 1 ≠ 0 then result * base % mod else result) (base * base % mod) (exp >>> 1) := by
  rw [modPowLoop, dif_pos h]

/-- The loop stays at 0. -/
theorem modPowLoop_zero_zero (mod exp : UInt64) : modPowLoop mod 0 0 exp = 0 := by
  induction hm : exp.toNat using Nat.strong_induction_on generalizing exp with
  | _ m ih =>
    by_cases h : 0 < exp
    · have hpos := UInt64.lt_iff_toNat_lt.mp h
      rw [modPowLoop_step h, UInt64.mul_zero, UInt64.zero_mod, ite_self]
      refine ih _ ?_ (exp >>> 1) rfl
      rw [toNat_shiftRight_one, ← hm]
      exact Nat.div_lt_self hpos (by decide)
    · rw [modPowLoop, dif_neg h]

/-- Once the base is 0, the next bit of the exponent makes the result 0. -/
theorem modPowLoop_base_zero (mod result : UInt64) {exp : UInt64} (h : 0 < exp) : modPowLoop mod result 0 exp = 0 := by
  induction hm : exp.toNat using Nat.strong_induction_on generalizing exp with
  | _ m ih =>
    rw [modPowLoop_step h, UInt64.mul_zero, UInt64.mul_zero, UInt64.zero_mod]
    by_cases hbit : exp &&& 1 ≠ 0
    · rw [if_pos hbit]
      exact modPowLoop_zero_zero mod _
    · have hpos := UInt64.lt_iff_toNat_lt.mp h
      have heven := mt (and_one_ne_zero_iff exp).mpr hbit
      rw [UInt64.toNat_zero] at hpos
      rw [if_neg hbit]
      refine ih (exp >>> 1).toNat ?_ (UInt64.lt_iff_toNat_lt.mpr ?_) rfl
      · rw [toNat_shiftRight_one, ← hm]
        exact Nat.div_lt_self hpos (by decide)
      · rw [toNat_shiftRight_one, UInt64.toNat_zero]
        omega

/-- Modulo more than 2 to the power of 32, the powers of 256 from the eighth on are taken for 0. -/
theorem modPow_256 (hn : 2 ^ 32 < n.toNat) {d : UInt64} (hd : 8 ≤ d.toNat) : modPow 256 d n = 0 := by
  have hkeep : ∀ x : UInt64, x.toNat ≤ 2 ^ 32 → x % n = x := by
    intro x hx
    rw [← UInt64.toNat_inj, UInt64.toNat_mod, Nat.mod_eq_of_lt (by omega)]
  have hpos : ∀ e : UInt64, 0 < e.toNat → 0 < e := fun e he => UInt64.lt_iff_toNat_lt.mpr he
  rw [modPow, hkeep 256 (by decide), modPowLoop_step (hpos d (by omega)),
    show (256 * 256 : UInt64) = 65536 from rfl, hkeep 65536 (by decide),
    modPowLoop_step (hpos _ (by rw [toNat_shiftRight_one]; omega)),
    show (65536 * 65536 : UInt64) = 4294967296 from rfl, hkeep 4294967296 (by decide),
    modPowLoop_step (hpos _ (by rw [toNat_shiftRight_one, toNat_shiftRight_one]; omega)),
    show (4294967296 * 4294967296 : UInt64) = 0 from rfl, UInt64.zero_mod]
  refine modPowLoop_base_zero _ _ (hpos _ ?_)
  rw [toNat_shiftRight_one, toNat_shiftRight_one, toNat_shiftRight_one]
  omega

/-- The squares of 0 are not -1. -/
theorem continueLoop_zero (hn : n ≠ 1) (turns : ℕ) : continueLoop n turns 0 = false := by
  have hsq : modPow 0 2 n = 0 := by
    rw [modPow, UInt64.zero_mod]
    exact modPowLoop_base_zero n 1 (by decide)
  have hne : (0 : UInt64) ≠ n - 1 := by
    intro h
    exact hn (by rw [← UInt64.sub_add_cancel n 1, ← h, UInt64.zero_add])
  induction turns with
  | zero => rfl
  | succ turns ih => simp only [continueLoop, hsq, if_neg hne, ih]

/-- The first round decides against `n` where it does in a test of one round. -/
theorem rounds_of_first {rand : ℕ → ℕ} {r d : UInt64} (h : rounds rand n r d 1 0 = 0) (k : ℕ) :
    rounds rand n r d (k + 1) 0 = 0 := by
  simp only [rounds] at h ⊢
  split at h
  · cases h
  · rename_i hfirst
    rw [if_neg hfirst]
    split at h
    · cases h
    · rename_i hsecond
      rw [if_neg hsecond]

/-- The numbers above 2 to the power of 32 whose predecessor has an odd part below 8: the base 256 decides against them. -/
theorem rounds_small_part : ∀ r < 64, ∀ d ∈ [1, 3, 5, 7], 2 ^ 32 < 2 ^ r * d → 2 ^ r * d < 2 ^ 64 →
    rounds (fun _ => 254) (UInt64.ofNat (2 ^ r * d + 1)) (UInt64.ofNat r) (UInt64.ofNat d) 1 0 = 0 := by
  decide +kernel

/-- The base 256 decides against every odd number above `2 ^ 32 + 1`. -/
theorem rounds_256 (hn : 2 ^ 32 + 1 < n.toNat) {r d : UInt64} (hsplit : 2 ^ r.toNat * d.toNat = n.toNat - 1)
    (hodd : d.toNat % 2 = 1) : rounds (fun _ => 254) n r d 1 0 = 0 := by
  have hlt := n.toNat_lt
  by_cases hd : 8 ≤ d.toNat
  · have hbase : (2 : UInt64) + UInt64.ofNat 254 % (n - 3) = 256 := by
      have hsub : (n - 3).toNat = n.toNat - 3 :=
        UInt64.toNat_sub_of_le n 3 (UInt64.le_iff_toNat_le.mpr (show 3 ≤ n.toNat by omega))
      have hmod : UInt64.ofNat 254 % (n - 3) = 254 := by
        rw [← UInt64.toNat_inj, UInt64.toNat_mod, hsub]
        exact Nat.mod_eq_of_lt (show 254 < n.toNat - 3 by omega)
      rw [hmod]
      rfl
    have hne : n ≠ 1 := by
      rintro rfl
      exact absurd hn (by decide)
    have hpred : ¬(0 : UInt64) = n - 1 := by
      rw [eq_pred_iff (by omega), UInt64.toNat_zero]
      omega
    simp only [rounds, hbase, modPow_256 (Nat.lt_of_succ_lt hn) hd, continueLoop_zero hne]
    rw [if_neg (by rintro (h | h); exacts [absurd h (by decide), hpred h])]
    rfl
  · have hsmall : d.toNat ∈ [1, 3, 5, 7] := by
      have : d.toNat = 1 ∨ d.toNat = 3 ∨ d.toNat = 5 ∨ d.toNat = 7 := by omega
      simpa using this
    have hr : r.toNat < 64 := by
      by_contra hge
      have hpow : 2 ^ 64 ≤ 2 ^ r.toNat * d.toNat :=
        Nat.le_trans (Nat.pow_le_pow_right (by decide) (Nat.le_of_not_lt hge)) (Nat.le_mul_of_pos_right _ (by omega))
      omega
    have hround := rounds_small_part r.toNat hr d.toNat hsmall (by omega) (by omega)
    rwa [hsplit, Nat.sub_add_cancel (by omega), UInt64.ofNat_toNat, UInt64.ofNat_toNat, UInt64.ofNat_toNat] at hround

/-- An odd number above `2 ^ 32 + 1` does not pass when the first draw is 254. -/
theorem millerRabin_wraps (hn : 2 ^ 32 + 1 < n.toNat) (hodd : n.toNat % 2 = 1) {k : ℤ} (hk : 0 < k) :
    millerRabin (fun _ => 254) n k = 0 := by
  have hpred : (n - 1).toNat = n.toNat - 1 := toNat_pred (by omega)
  have hlt := n.toNat_lt
  have hparity : ¬n % 2 = 0 := by
    rw [← UInt64.toNat_inj, UInt64.toNat_mod]
    intro h
    exact absurd (hodd.symm.trans h) (by decide)
  have hlarge : ¬(n = 2 ∨ n = 3) := by
    rintro (rfl | rfl) <;> exact absurd hn (by decide)
  have hsplit := splitTwos_toNat (r := 0) (d := n - 1) (by rw [UInt64.toNat_zero]; omega)
  rw [UInt64.toNat_zero, hpred, Prod.ext_iff] at hsplit
  simp only at hsplit
  obtain ⟨hprod, hpart, -⟩ := AuthVideo.splitTwos_spec (r := 0) (d := n.toNat - 1) (by omega)
  rw [← hsplit.1, ← hsplit.2, pow_zero, one_mul] at hprod
  rw [← hsplit.2] at hpart
  obtain ⟨j, hj⟩ : ∃ j, k.toNat = j + 1 := ⟨k.toNat - 1, by omega⟩
  rw [millerRabin, if_neg (fun h => by have := UInt64.le_iff_toNat_le.mp h; rw [UInt64.toNat_one] at this; omega),
    if_neg hlarge, if_neg hparity, hj]
  exact rounds_of_first (rounds_256 hn hprod hpart) j

/-- A prime passes a test of no rounds. -/
theorem millerRabin_no_rounds (hn : n.toNat.Prime) (rand : ℕ → ℕ) {k : ℤ} (hk : k ≤ 0) : millerRabin rand n k = 1 := by
  have hone : ¬n ≤ 1 := by
    rw [UInt64.le_iff_toNat_le, UInt64.toNat_one]
    exact Nat.not_le.mpr hn.one_lt
  rw [millerRabin, if_neg hone]
  by_cases hsmall : n = 2 ∨ n = 3
  · rw [if_pos hsmall]
  · have hparity : ¬n % 2 = 0 := by
      rw [← UInt64.toNat_inj, UInt64.toNat_mod]
      intro h
      have htwo := (Nat.prime_dvd_prime_iff_eq Nat.prime_two hn).mp (Nat.dvd_of_mod_eq_zero h)
      exact hsmall (.inl (UInt64.toNat_inj.mp htwo.symm))
    rw [if_neg hsmall, if_neg hparity, Int.toNat_of_nonpos hk]
    rfl

end PrimeNumber

end AuthVideo
