import AuthVideo.Lib.Loop
import Mathlib.Data.Nat.ModEq
import Mathlib.Tactic.Ring

/-!
# Long division in base two

A dividend is read from its highest bit down. A turn doubles the remainder, brings the next bit down and subtracts the divisor. The
division here is the one of a register: the doubling drops what reaches `W`, and the divisor is subtracted only from what is above
it. The remainders stay exact as long as no turn meets the divisor itself and none reaches `W`.
-/

namespace LongDivision

variable {W m n i : ℕ}

/-- The leading part of the dividend, from the bit at `i` on. -/
def leading (n i : ℕ) : ℕ := n / 2 ^ i

/-- The bit at `i`. -/
def bit (n i : ℕ) : ℕ := leading n i % 2

/-- A turn for a bit. -/
def turn (W m r b : ℕ) : ℕ := if m < 2 * r % W + b then 2 * r % W + b - m else 2 * r % W + b

/-- What the turn at `i` compares with the divisor, when the remainder before it is exact. -/
def brought (m n i : ℕ) : ℕ := 2 * (leading n (i + 1) % m) + bit n i

theorem leading_eq (n i : ℕ) : leading n i = 2 * leading n (i + 1) + bit n i := by
  have hhalf : leading n (i + 1) = leading n i / 2 := by
    rw [leading, leading, Nat.div_div_eq_div_mul, Nat.pow_succ]
  rw [hhalf, bit]
  exact (Nat.div_add_mod _ 2).symm

theorem bit_lt (n i : ℕ) : bit n i < 2 := Nat.mod_lt _ (by decide)

@[simp] theorem leading_zero (n : ℕ) : leading n 0 = n := by
  rw [leading, Nat.pow_zero, Nat.div_one]

theorem leading_eq_zero {k : ℕ} (h : n < 2 ^ k) : leading n k = 0 := Nat.div_eq_of_lt h

theorem leading_le (n i : ℕ) : leading n i ≤ n := Nat.div_le_self _ _

/-- What is compared is the leading part up to a multiple of the divisor. -/
theorem brought_mod (m n i : ℕ) : brought m n i % m = leading n i % m := by
  rw [leading_eq n i, brought, Nat.add_mod, Nat.mul_mod_mod, ← Nat.add_mod]

theorem brought_le (m n i : ℕ) : brought m n i ≤ leading n i := by
  rw [leading_eq n i, brought]
  have := Nat.mod_le (leading n (i + 1)) m
  omega

theorem brought_lt (hm : 0 < m) : brought m n i < 2 * m := by
  have := Nat.mod_lt (leading n (i + 1)) hm
  have := bit_lt n i
  rw [brought]
  omega

/-- A turn on an exact remainder is exact if and only if it neither meets the divisor nor reaches the end of the register. -/
theorem turn_exact_iff (hm : 0 < m) (hmW : m < W) (hW : 2 ∣ W) :
    turn W m (leading n (i + 1) % m) (bit n i) = leading n i % m ↔ brought m n i ≠ m ∧ brought m n i < W := by
  have hr := Nat.mod_lt (leading n (i + 1)) hm
  have hb := bit_lt n i
  have hlt : brought m n i < 2 * m := brought_lt hm
  rw [← brought_mod m n i]
  simp only [brought] at hlt ⊢
  generalize leading n (i + 1) % m = r at hr hlt ⊢
  rcases Nat.lt_or_ge (2 * r) W with hfit | hover
  · have hfits : 2 * r + bit n i < W := by omega
    rw [turn, Nat.mod_eq_of_lt hfit]
    split
    · rename_i hgt
      rw [Nat.mod_eq_sub_mod (Nat.le_of_lt hgt), Nat.mod_eq_of_lt (by omega)]
      exact ⟨fun _ => ⟨Nat.ne_of_gt hgt, hfits⟩, fun _ => rfl⟩
    · rename_i hle
      rcases Nat.lt_or_eq_of_le (Nat.not_lt.mp hle) with hless | heq
      · rw [Nat.mod_eq_of_lt hless]
        exact ⟨fun _ => ⟨Nat.ne_of_lt hless, hfits⟩, fun _ => rfl⟩
      · rw [heq, Nat.mod_self]
        exact ⟨fun h => absurd h (Nat.ne_of_gt hm), fun h => absurd rfl h.1⟩
  · -- the register has dropped `W`, where `m` had to go
    have hdrop : 2 * r % W = 2 * r - W := by
      rw [Nat.mod_eq_sub_mod hover, Nat.mod_eq_of_lt (by omega)]
    have hmod : (2 * r + bit n i) % m = 2 * r + bit n i - m := by
      rw [Nat.mod_eq_sub_mod (by omega), Nat.mod_eq_of_lt (by omega)]
    rw [turn, hdrop, hmod, if_neg (by omega)]
    constructor
    · intro h
      omega
    · intro h
      omega

/-- A turn that meets the divisor leaves it. -/
theorem turn_of_eq (hW : 2 ∣ W) (hmW : m < W) (heq : brought m n i = m) : turn W m (leading n (i + 1) % m) (bit n i) = m := by
  have hb := bit_lt n i
  simp only [brought] at heq
  rw [turn, Nat.mod_eq_of_lt (by omega), heq, if_neg (Nat.lt_irrefl m)]

/-- A remainder that is the divisor or more stays so as long as the register holds it. -/
theorem le_turn {r : ℕ} (hm : 0 < m) (hr : m ≤ r) (hle : r ≤ leading n (i + 1)) (hfit : leading n i < W) :
    m ≤ turn W m r (bit n i) ∧ turn W m r (bit n i) ≤ leading n i := by
  have heq := leading_eq n i
  rw [turn, Nat.mod_eq_of_lt (by omega), if_pos (by omega)]
  constructor
  · omega
  · omega

/-! ## The whole division -/

/-- The remainders of a division over `k` bits, numbered by the bit last brought down. -/
structure Run (W m n k : ℕ) (r : ℕ → ℕ) : Prop where
  start : r k = 0
  turn : ∀ i < k, r i = turn W m (r (i + 1)) (bit n i)

/-- No turn meets the divisor or reaches the end of the register. -/
def Clean (W m n k : ℕ) : Prop := ∀ i < k, brought m n i ≠ m ∧ brought m n i < W

section

variable {k : ℕ} {r : ℕ → ℕ} (hm : 0 < m) (hmW : m < W) (hW : 2 ∣ W) (hn : n < 2 ^ k) (h : Run W m n k r)

include hm hmW hW hn h

/-- As long as the turns are clean the remainders are exact. -/
theorem Run.exact_of_clean {j : ℕ} (hj : j ≤ k) (hclean : ∀ i, j ≤ i → i < k → brought m n i ≠ m ∧ brought m n i < W) :
    r j = leading n j % m := by
  induction hj using Nat.decreasingInduction with
  | self => rw [h.start, leading_eq_zero hn, Nat.zero_mod]
  | of_succ i hi ih =>
    rw [h.turn i hi, ih fun i' hle => hclean i' (by omega)]
    exact (turn_exact_iff hm hmW hW).mpr (hclean i (Nat.le_refl i) hi)

/-- The remainders are exact throughout if and only if every turn is clean. -/
theorem Run.exact_iff : (∀ i ≤ k, r i = leading n i % m) ↔ Clean W m n k := by
  constructor
  · intro hexact i hi
    rw [← turn_exact_iff hm hmW hW, ← hexact (i + 1) hi, ← h.turn i hi]
    exact hexact i (Nat.le_of_lt hi)
  · intro hclean i hi
    exact h.exact_of_clean hm hmW hW hn hi fun j _ hj => hclean j hj

/-- Where a turn meets the divisor, and the register holds the dividend, the result is the divisor or more. -/
theorem Run.le_of_eq {j : ℕ} (hj : j < k) (hclean : ∀ i, j < i → i < k → brought m n i ≠ m ∧ brought m n i < W)
    (heq : brought m n j = m) (hfit : n < W) : m ≤ r 0 := by
  have hmeets : m ≤ r j ∧ r j ≤ leading n j := by
    have hprev : r (j + 1) = leading n (j + 1) % m := h.exact_of_clean hm hmW hW hn hj fun i hi => hclean i (by omega)
    have hle := brought_le m n j
    rw [h.turn j hj, hprev, turn_of_eq hW hmW heq]
    omega
  have hstays : ∀ i ≤ j, m ≤ r i ∧ r i ≤ leading n i := by
    intro i hi
    induction hi using Nat.decreasingInduction with
    | self => exact hmeets
    | of_succ i hij ih =>
      rw [h.turn i (by omega)]
      exact le_turn hm ih.1 ih.2 (Nat.lt_of_le_of_lt (leading_le n i) hfit)
  exact (hstays 0 (Nat.zero_le j)).1

/-- A dividend that the register holds is reduced if and only if every turn is clean. -/
theorem Run.reduced_iff (hfit : n < W) : r 0 = n % m ↔ Clean W m n k := by
  have hbelow : ∀ i, brought m n i < W := fun i =>
    Nat.lt_of_le_of_lt (Nat.le_trans (brought_le m n i) (leading_le n i)) hfit
  constructor
  · intro hreduced
    have hdown : ∀ j ≤ k, ∀ i, j ≤ i → i < k → brought m n i ≠ m ∧ brought m n i < W := by
      intro j hj
      induction hj using Nat.decreasingInduction with
      | self => intro i hle hlt; omega
      | of_succ j hj ih =>
        intro i hle hlt
        rcases Nat.lt_or_eq_of_le hle with hlater | rfl
        · exact ih i hlater hlt
        · refine ⟨fun heq => ?_, hbelow j⟩
          have hge := h.le_of_eq hm hmW hW hn hlt (fun i hi => ih i hi) heq hfit
          have hlt := Nat.mod_lt n hm
          omega
    exact fun i hi => hdown 0 (Nat.zero_le k) i (Nat.zero_le i) hi
  · intro hclean
    rw [h.exact_of_clean hm hmW hW hn (Nat.zero_le k) fun i _ hi => hclean i hi, leading_zero]

end

/-- Clean or not, a dividend that the register holds leaves a congruent number, and no larger one. -/
theorem Run.mod_eq_and_le {k : ℕ} {r : ℕ → ℕ} (hn : n < 2 ^ k) (hfit : n < W) (h : Run W m n k r) {i : ℕ} (hi : i ≤ k) :
    r i % m = leading n i % m ∧ r i ≤ leading n i := by
  induction hi using Nat.decreasingInduction with
  | self =>
    rw [h.start]
    exact ⟨by rw [leading_eq_zero hn], Nat.zero_le _⟩
  | of_succ i hi ih =>
    obtain ⟨hmod, hle⟩ := ih
    have hlead := leading_le n i
    have heq := leading_eq n i
    have hcongr : (2 * r (i + 1) + bit n i) % m = leading n i % m := by
      rw [heq, Nat.add_mod, Nat.mul_mod, hmod, ← Nat.mul_mod, ← Nat.add_mod]
    have hkept : 2 * r (i + 1) % W = 2 * r (i + 1) := Nat.mod_eq_of_lt (by omega)
    rw [h.turn i hi, LongDivision.turn, hkept]
    split
    · rename_i hgt
      rw [← Nat.mod_eq_sub_mod (Nat.le_of_lt hgt)]
      exact ⟨hcongr, by omega⟩
    · exact ⟨hcongr, by omega⟩

/-- A turn meets the divisor where a leading part is a multiple of it for the first time. None does where only zero is one. -/
theorem forall_brought_ne_iff {k : ℕ} (hm : 0 < m) (hn : n < 2 ^ k) :
    (∀ i < k, brought m n i ≠ m) ↔ ∀ i < k, m ∣ leading n i → leading n i = 0 := by
  constructor
  · intro hne
    have hdown : ∀ i ≤ k, m ∣ leading n i → leading n i = 0 := by
      intro i hi
      induction hi using Nat.decreasingInduction with
      | self => exact fun _ => leading_eq_zero hn
      | of_succ i hi ih =>
        intro hdvd
        have hmod : brought m n i % m = 0 := by rw [brought_mod, Nat.mod_eq_zero_of_dvd hdvd]
        have hlt : brought m n i < 2 * m := brought_lt hm
        have hzero : brought m n i = 0 := by
          rcases Nat.lt_or_ge (brought m n i) m with hless | hge
          · rwa [Nat.mod_eq_of_lt hless] at hmod
          · rw [Nat.mod_eq_sub_mod hge, Nat.mod_eq_of_lt (by omega)] at hmod
            exact absurd (by omega) (hne i hi)
        rw [brought] at hzero
        have hnext : leading n (i + 1) = 0 := ih (Nat.dvd_of_mod_eq_zero (by omega))
        rw [leading_eq, hnext]
        omega
    exact fun i hi => hdown i (Nat.le_of_lt hi)
  · intro hzero i hi heq
    have hdvd : m ∣ leading n i := by
      rw [Nat.dvd_iff_mod_eq_zero, ← brought_mod, heq, Nat.mod_self]
    have hle := brought_le m n i
    rw [hzero i hi hdvd, heq] at hle
    omega

end LongDivision
