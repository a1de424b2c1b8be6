import Mathlib.Data.Nat.Basic
import Mathlib.Data.Int.Bitwise
import Mathlib.Data.List.Basic
import Mathlib.Data.List.Induction
import Mathlib.Tactic.IntervalCases

/-!
# Decimal texts and masks

Decimal numerals as lists of characters, the number that a run of numerals written one after the other denotes, and the
cancellation law of the bitwise exclusive or on integers.
-/

namespace Decimal

/-! ## Numerals written one after the other -/

/-- The numerals of some numbers, one after the other. -/
def joined (ns : List ℕ) : List Char := ns.flatMap (Nat.toDigits 10)

/-- The number that the joined numerals denote. -/
def concat (ns : List ℕ) : ℕ := Nat.ofDigitChars 10 (joined ns) 0

/-- Joined numerals hold digits only. -/
theorem isDigit_of_mem_joined {ns : List ℕ} {c : Char} (h : c ∈ joined ns) : c.isDigit := by
  obtain ⟨n, -, hc⟩ := List.mem_flatMap.mp h
  exact Nat.isDigit_of_mem_toDigits (by decide) (by decide) hc

/-- Joined numerals are empty only when there are none. -/
theorem joined_ne_nil {ns : List ℕ} (h : ns ≠ []) : joined ns ≠ [] := by
  cases ns with
  | nil => exact absurd rfl h
  | cons n ns => simp [joined]

/-- A single numeral denotes its number. -/
@[simp] theorem concat_singleton (n : ℕ) : concat [n] = n := by simp [concat, joined]

/-- Joined numerals may be read as a number before another numeral is written after them. -/
theorem concat_concat (ns : List ℕ) (n : ℕ) : concat [concat ns, n] = concat (ns ++ [n]) := by
  have h : Nat.ofDigitChars 10 (Nat.toDigits 10 (concat ns)) 0 = concat ns := by simp
  simp only [concat, joined, List.flatMap_cons, List.flatMap_nil, List.append_nil, List.flatMap_append,
    Nat.ofDigitChars_append] at h ⊢
  rw [h]

/-- A text of `k` digits denotes a number below `10 ^ k`. -/
theorem ofDigitChars_lt {cs : List Char} (h : ∀ c ∈ cs, c.isDigit) : Nat.ofDigitChars 10 cs 0 < 10 ^ cs.length := by
  induction cs with
  | nil => simp
  | cons c cs ih =>
    have hc : c.toNat - '0'.toNat ≤ 9 := by
      have hd := h c List.mem_cons_self
      simp only [Char.isDigit, Bool.and_eq_true, decide_eq_true_eq, UInt32.le_iff_toNat_le] at hd
      have h9 : c.toNat ≤ 57 := hd.2
      have h0 : '0'.toNat = 48 := rfl
      omega
    have htail := ih fun d hd => h d (List.mem_cons_of_mem _ hd)
    rw [Nat.ofDigitChars_cons, Nat.ofDigitChars_eq_ofDigitChars_zero, List.length_cons, Nat.pow_succ]
    have hmul : 10 ^ cs.length * (10 * 0 + (c.toNat - '0'.toNat)) ≤ 10 ^ cs.length * 9 := Nat.mul_le_mul_left _ (by omega)
    omega

/-- The numeral of the joined number is not longer than the joined text. -/
theorem length_toDigits_concat {ns : List ℕ} (h : ns ≠ []) :
    (Nat.toDigits 10 (concat ns)).length ≤ (joined ns).length := by
  rw [Nat.length_toDigits_le_iff (by decide) (List.length_pos_iff.mpr (joined_ne_nil h))]
  exact ofDigitChars_lt fun c hc => isDigit_of_mem_joined hc

/-- Each numeral is not longer than the joined text. -/
theorem length_toDigits_le_joined {ns : List ℕ} {n : ℕ} (h : n ∈ ns) :
    (Nat.toDigits 10 n).length ≤ (joined ns).length := by
  induction ns with
  | nil => cases h
  | cons m ns ih =>
    simp only [joined, List.flatMap_cons, List.length_append]
    rcases List.mem_cons.mp h with rfl | h
    · omega
    · have := ih h
      simp only [joined] at this
      omega

/-! ## Numerals of joined numbers -/

/-- The numeral of a positive number does not begin with a zero. -/
theorem head_toDigits {n : ℕ} (hn : 0 < n) : (Nat.toDigits 10 n).head? ≠ some '0' := by
  induction n using Nat.strongRecOn with
  | ind n ih =>
    by_cases hlt : n < 10
    · rw [Nat.toDigits_of_lt_base hlt]
      interval_cases n <;> decide
    · rw [Nat.toDigits_of_base_le (by decide) (Nat.not_lt.mp hlt), List.head?_append_of_ne_nil _ Nat.toDigits_ne_nil]
      exact ih (n / 10) (by omega) (by omega)

/-- The value of a digit, and the digit of a value. -/
theorem digitChar_of_isDigit {c : Char} (h : c.isDigit) : (c.toNat - '0'.toNat).digitChar = c ∧ c.toNat - '0'.toNat < 10 := by
  simp only [Char.isDigit, Bool.and_eq_true, decide_eq_true_eq, UInt32.le_iff_toNat_le] at h
  have hlow : 48 ≤ c.toNat := h.1
  have hhigh : c.toNat ≤ 57 := h.2
  have hzero : '0'.toNat = 48 := rfl
  refine ⟨?_, by omega⟩
  rw [← Char.toNat_inj, hzero]
  interval_cases hc : c.toNat <;> rfl

/-- A text of digits that does not begin with a zero is the numeral of its number. -/
theorem toDigits_ofDigitChars {t : List Char} (hd : ∀ c ∈ t, c.isDigit) (hne : t ≠ []) (hhead : t.head? ≠ some '0') :
    Nat.toDigits 10 (Nat.ofDigitChars 10 t 0) = t := by
  induction t using List.reverseRecOn with
  | nil => exact absurd rfl hne
  | append_singleton t c ih =>
    obtain ⟨hchar, hlt⟩ := digitChar_of_isDigit (hd c (by simp))
    rw [Nat.ofDigitChars_append, Nat.ofDigitChars_cons, Nat.ofDigitChars_nil]
    by_cases ht : t = []
    · rw [ht, Nat.ofDigitChars_nil, Nat.mul_zero, Nat.zero_add, Nat.toDigits_of_lt_base hlt, hchar, List.nil_append]
    · rw [List.head?_append_of_ne_nil _ ht] at hhead
      have hrest := ih (fun c hc => hd c (List.mem_append_left _ hc)) ht hhead
      have hpos : 0 < Nat.ofDigitChars 10 t 0 := by
        refine Nat.pos_of_ne_zero fun hzero => hhead ?_
        rw [hzero] at hrest
        rw [← hrest]
        rfl
      rw [← Nat.toDigits_append_toDigits (by decide) hpos hlt, hrest, Nat.toDigits_of_lt_base hlt, hchar]

/-- Numerals joined behind a positive number are the numeral of the joined number. -/
theorem toDigits_concat {n : ℕ} (hn : 0 < n) (ns : List ℕ) : Nat.toDigits 10 (concat (n :: ns)) = joined (n :: ns) := by
  refine toDigits_ofDigitChars (fun c hc => isDigit_of_mem_joined hc) (joined_ne_nil (List.cons_ne_nil n ns)) ?_
  rw [joined, List.flatMap_cons, List.head?_append_of_ne_nil _ Nat.toDigits_ne_nil]
  exact head_toDigits hn

/-! ## What can be read back out of a joined number -/

/-- A numeral written after others. -/
theorem concat_append_singleton (ns : List ℕ) (n : ℕ) :
    concat (ns ++ [n]) = 10 ^ (Nat.toDigits 10 n).length * concat ns + n := by
  have hn : Nat.ofDigitChars 10 (Nat.toDigits 10 n) 0 = n := by simp
  unfold concat joined
  rw [List.flatMap_append, Nat.ofDigitChars_append, Nat.ofDigitChars_eq_ofDigitChars_zero, List.flatMap_singleton, hn]

/-- Numerals before the same last one. -/
theorem concat_append_inj {ms ns : List ℕ} {n : ℕ} (h : concat (ms ++ [n]) = concat (ns ++ [n])) : concat ms = concat ns := by
  rw [concat_append_singleton, concat_append_singleton] at h
  exact Nat.eq_of_mul_eq_mul_left (Nat.pow_pos (by decide)) (Nat.add_right_cancel h)

/-- Digits are read back one after the other, when it is known how many there are. -/
theorem concat_digits_inj {ms ns : List ℕ} (hlen : ms.length = ns.length) (hms : ∀ n ∈ ms, n < 10) (hns : ∀ n ∈ ns, n < 10)
    (h : concat ms = concat ns) : ms = ns := by
  induction ms using List.reverseRecOn generalizing ns with
  | nil => exact (List.length_eq_zero_iff.mp hlen.symm).symm
  | append_singleton ms m ih =>
    induction ns using List.reverseRecOn with
    | nil => simp at hlen
    | append_singleton ns n _ =>
      have hm : m < 10 := hms m (by simp)
      have hn : n < 10 := hns n (by simp)
      rw [concat_append_singleton, concat_append_singleton, Nat.toDigits_of_lt_base hm, Nat.toDigits_of_lt_base hn,
        List.length_singleton, List.length_singleton] at h
      have hlen' : ms.length = ns.length := by simpa using hlen
      have hrest := ih hlen' (fun k hk => hms k (List.mem_append_left _ hk)) (fun k hk => hns k (List.mem_append_left _ hk))
        (by omega)
      rw [hrest, show m = n by omega]

/-- A larger number behind the same first one gives a larger joined number. -/
theorem concat_pair_lt {k m n : ℕ} (h : m < n) : concat [k, m] < concat [k, n] := by
  have hlen : (Nat.toDigits 10 m).length ≤ (Nat.toDigits 10 n).length := by
    have hpos : 0 < (Nat.toDigits 10 n).length := Nat.length_toDigits_pos
    rw [Nat.length_toDigits_le_iff (by decide) hpos]
    exact Nat.lt_trans h ((Nat.length_toDigits_le_iff (by decide) hpos).mp (Nat.le_refl _))
  have hpow : 10 ^ (Nat.toDigits 10 m).length * k ≤ 10 ^ (Nat.toDigits 10 n).length * k :=
    Nat.mul_le_mul_right k (Nat.pow_le_pow_right (by decide) hlen)
  have hm := concat_append_singleton [k] m
  have hn := concat_append_singleton [k] n
  rw [concat_singleton] at hm hn
  calc concat [k, m]
      = 10 ^ (Nat.toDigits 10 m).length * k + m := hm
    _ < 10 ^ (Nat.toDigits 10 n).length * k + n := by omega
    _ = concat [k, n] := hn.symm

/-- Numbers behind the same first one. -/
theorem concat_pair_inj {k m n : ℕ} (h : concat [k, m] = concat [k, n]) : m = n := by
  rcases Nat.lt_trichotomy m n with hlt | heq | hgt
  · exact absurd h (Nat.ne_of_lt (concat_pair_lt hlt))
  · exact heq
  · exact absurd h.symm (Nat.ne_of_lt (concat_pair_lt hgt))

end Decimal

namespace Mask

/-- Masking twice with the same value gives the masked value back. -/
theorem xor_cancel_right (a b : ℤ) : Int.xor (Int.xor a b) b = a := by
  cases a <;> cases b <;> simp [Int.xor]

/-- The exclusive or of integers is commutative. -/
theorem xor_comm (a b : ℤ) : Int.xor a b = Int.xor b a := by
  cases a <;> cases b <;> simp [Int.xor, Nat.xor_comm]

/-- The exclusive or of two naturals is a natural. -/
theorem xor_natCast (m n : ℕ) : Int.xor m n = ((m ^^^ n : ℕ) : ℤ) := rfl

/-- Masking a natural twice with the same value, the mask on the outside. -/
@[simp] theorem natXor_cancel_left (a b : ℕ) : a ^^^ (a ^^^ b) = b := by
  rw [← Nat.xor_assoc, Nat.xor_self, Nat.zero_xor]

/-- Masking a natural twice with the same value, the mask in front and behind. -/
@[simp] theorem natXor_cancel_middle (a b : ℕ) : a ^^^ b ^^^ a = b := by
  rw [Nat.xor_comm, natXor_cancel_left]

/-- Masking a natural twice with the same value, the mask behind. -/
@[simp] theorem natXor_cancel_right (a b : ℕ) : a ^^^ b ^^^ b = a := by
  rw [Nat.xor_assoc, Nat.xor_self, Nat.xor_zero]

end Mask
