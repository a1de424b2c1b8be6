import Mathlib.Data.Nat.Notation
import Mathlib.Tactic.Ring

/-!
# Numbers in words of 32 bits

The value of a list of words, the lowest first, and what the machine's operations on 32 and 64 bits do to it.
-/

namespace Words

/-- The number that a list of words holds. -/
def value : List UInt32 → ℕ
  | [] => 0
  | w :: ws => w.toNat + 2 ^ 32 * value ws

@[simp] theorem value_nil : value [] = 0 := rfl

@[simp] theorem value_cons (w : UInt32) (ws : List UInt32) : value (w :: ws) = w.toNat + 2 ^ 32 * value ws := rfl

/-- One more word. -/
theorem pow_succ_words (n : ℕ) : 2 ^ (32 * (n + 1)) = 2 ^ 32 * 2 ^ (32 * n) := by
  rw [Nat.mul_succ, Nat.pow_add, Nat.mul_comm]

/-- Words that follow others count from where those end. -/
theorem value_append (us vs : List UInt32) : value (us ++ vs) = value us + 2 ^ (32 * us.length) * value vs := by
  induction us with
  | nil => simp
  | cons u us ih =>
    rw [List.cons_append, value_cons, ih, value_cons, List.length_cons, pow_succ_words]
    ring

/-- The highest word of a list. -/
theorem value_concat (ws : List UInt32) (w : UInt32) : value (ws ++ [w]) = value ws + 2 ^ (32 * ws.length) * w.toNat := by
  rw [value_append, value_cons, value_nil, Nat.mul_zero, Nat.add_zero]

/-- A number in `n` words is below `2 ^ (32 n)`. -/
theorem value_lt (ws : List UInt32) : value ws < 2 ^ (32 * ws.length) := by
  induction ws with
  | nil => simp
  | cons w ws ih =>
    have hw := w.toNat_lt
    rw [value_cons, List.length_cons, pow_succ_words]
    omega

@[simp] theorem value_replicate_zero (n : ℕ) : value (List.replicate n 0) = 0 := by
  induction n with
  | zero => rfl
  | succ n ih => rw [List.replicate_succ, value_cons, ih]; rfl

/-- A word of a number; behind the highest one there are zeros. -/
theorem getD_toNat (ws : List UInt32) (j : ℕ) : (ws.getD j 0).toNat = value ws / 2 ^ (32 * j) % 2 ^ 32 := by
  induction ws generalizing j with
  | nil => simp
  | cons w ws ih =>
    have hw := w.toNat_lt
    cases j with
    | zero =>
      rw [List.getD_cons_zero, value_cons, Nat.mul_zero, Nat.pow_zero, Nat.div_one]
      omega
    | succ j =>
      have hrest : (w.toNat + 2 ^ 32 * value ws) / 2 ^ 32 = value ws := by omega
      rw [List.getD_cons_succ, ih, value_cons, pow_succ_words, ← Nat.div_div_eq_div_mul, hrest]

/-- A number is zero when all its words are. -/
theorem value_eq_zero_iff (ws : List UInt32) : value ws = 0 ↔ ∀ w ∈ ws, w = 0 := by
  induction ws with
  | nil => simp
  | cons w ws ih =>
    rw [value_cons, List.forall_mem_cons, ← ih, ← UInt32.toNat_inj]
    simp

/-- The lowest words hold a number that fits into them. -/
theorem value_take {ws : List UInt32} {n : ℕ} (hn : n ≤ ws.length) (h : value ws < 2 ^ (32 * n)) :
    value (ws.take n) = value ws := by
  have hsplit := value_append (ws.take n) (ws.drop n)
  rw [List.take_append_drop, List.length_take, Nat.min_eq_left hn] at hsplit
  rcases Nat.eq_zero_or_pos (value (ws.drop n)) with hzero | hpos
  · rw [hsplit, hzero, Nat.mul_zero, Nat.add_zero]
  · have := Nat.le_mul_of_pos_right (2 ^ (32 * n)) hpos
    omega

/-- Words are masked one by one. -/
theorem value_zipWith_xor {us vs : List UInt32} (h : us.length = vs.length) :
    value (List.zipWith (· ^^^ ·) us vs) = value us ^^^ value vs := by
  induction us generalizing vs with
  | nil =>
    obtain rfl := List.length_eq_zero_iff.mp h.symm
    rfl
  | cons u us ih =>
    cases vs with
    | nil => cases h
    | cons v vs =>
      have hlow : ∀ (w : UInt32) (n : ℕ), (w.toNat + 2 ^ 32 * n) % 2 ^ 32 = w.toNat := fun w n => by
        rw [Nat.add_mul_mod_self_left, Nat.mod_eq_of_lt w.toNat_lt]
      have hhigh : ∀ (w : UInt32) (n : ℕ), (w.toNat + 2 ^ 32 * n) / 2 ^ 32 = n := fun w n => by
        rw [Nat.add_mul_div_left _ _ (Nat.two_pow_pos 32), Nat.div_eq_of_lt w.toNat_lt, Nat.zero_add]
      have hmod := Nat.xor_mod_two_pow (a := u.toNat + 2 ^ 32 * value us) (b := v.toNat + 2 ^ 32 * value vs) (n := 32)
      have hdiv := Nat.xor_div_two_pow (a := u.toNat + 2 ^ 32 * value us) (b := v.toNat + 2 ^ 32 * value vs) (n := 32)
      rw [hlow, hlow] at hmod
      rw [hhigh, hhigh] at hdiv
      have hsplit := Nat.mod_add_div ((u.toNat + 2 ^ 32 * value us) ^^^ (v.toNat + 2 ^ 32 * value vs)) (2 ^ 32)
      rw [List.zipWith_cons_cons, value_cons, value_cons, value_cons, ih (Nat.succ.inj h), UInt32.toNat_xor, ← hmod, ← hdiv]
      exact hsplit

/-- A number has one place in words. -/
theorem value_inj {us vs : List UInt32} (hlen : us.length = vs.length) (h : value us = value vs) : us = vs := by
  induction us generalizing vs with
  | nil => exact (List.length_eq_zero_iff.mp hlen.symm).symm
  | cons u us ih =>
    cases vs with
    | nil => cases hlen
    | cons v vs =>
      have hu := u.toNat_lt
      have hv := v.toNat_lt
      rw [value_cons, value_cons] at h
      have hhead : u.toNat = v.toNat := by omega
      rw [ih (Nat.succ.inj hlen) (by omega), UInt32.toNat_inj.mp hhead]

/-! ## Words and double words -/

/-- A double word is its low word and its high part. -/
theorem low_add_high (t : UInt64) : t.toUInt32.toNat + 2 ^ 32 * (t >>> 32).toNat = t.toNat := by
  have hhigh : (t >>> 32).toNat = t.toNat / 2 ^ 32 := by
    rw [UInt64.toNat_shiftRight, Nat.shiftRight_eq_div_pow]
    rfl
  rw [UInt64.toNat_toUInt32, hhigh]
  exact Nat.mod_add_div _ _

/-- The high part of a double word fits into a word. -/
theorem high_lt (t : UInt64) : (t >>> 32).toNat < 2 ^ 32 := by
  have hsplit := low_add_high t
  have ht := t.toNat_lt
  omega

end Words
