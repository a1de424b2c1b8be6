import AuthVideo.Lib.Loop
import Mathlib.Data.Nat.Digits.Defs
import Mathlib.Tactic.Ring

/-!
# From one radix to another

A number stands in a text as its digits, the highest first. Long division by another radix leaves a digit in that radix, and a loop
that divides until nothing is left collects all of them, the lowest first.
-/

namespace Radix

variable {b k n r : ℕ} {ds : List ℕ}

/-! ## Texts -/

/-- The number that a text of digits denotes. -/
def value (b : ℕ) (ds : List ℕ) : ℕ := Nat.ofDigits b ds.reverse

@[simp] theorem value_nil (b : ℕ) : value b [] = 0 := rfl

/-- The highest digit. -/
theorem value_cons (b d : ℕ) (ds : List ℕ) : value b (d :: ds) = d * b ^ ds.length + value b ds := by
  rw [value, List.reverse_cons, Nat.ofDigits_append, Nat.ofDigits_singleton, List.length_reverse, value]
  ring

/-- One text behind another. -/
theorem value_append (b : ℕ) (ds es : List ℕ) : value b (ds ++ es) = value b ds * b ^ es.length + value b es := by
  induction ds with
  | nil => simp
  | cons d ds ih =>
    rw [List.cons_append, value_cons, ih, value_cons, List.length_append, Nat.pow_add]
    ring

/-- A text of `n` digits denotes a number below `b ^ n`. -/
theorem value_lt (hb : 1 < b) (hds : ∀ d ∈ ds, d < b) : value b ds < b ^ ds.length := by
  have h := Nat.ofDigits_lt_base_pow_length (l := ds.reverse) hb fun d hd => hds d (List.mem_reverse.mp hd)
  rwa [List.length_reverse] at h

/-- Only zeros denote zero. -/
theorem value_eq_zero_iff (hb : 0 < b) : value b ds = 0 ↔ ∀ d ∈ ds, d = 0 := by
  induction ds with
  | nil => simp
  | cons d ds ih =>
    have hpow := Nat.pow_pos (n := ds.length) hb
    rw [value_cons, Nat.add_eq_zero_iff, Nat.mul_eq_zero, ih, List.forall_mem_cons]
    simp only [Nat.ne_of_gt hpow, or_false]

/-- Texts of one length that denote the same number are the same. -/
theorem value_inj {es : List ℕ} (hb : 1 < b) (hlen : ds.length = es.length) (hds : ∀ d ∈ ds, d < b) (hes : ∀ e ∈ es, e < b)
    (h : value b ds = value b es) : ds = es := by
  have hreverse : ds.reverse = es.reverse := by
    refine Nat.ofDigits_inj_of_len_eq hb (by rw [List.length_reverse, List.length_reverse, hlen]) ?_ ?_ h
    · intro d hd
      exact hds d (List.mem_reverse.mp hd)
    · intro e he
      exact hes e (List.mem_reverse.mp he)
  exact List.reverse_inj.mp hreverse

/-- Zeros in front do not count. -/
theorem value_dropWhile (b : ℕ) (ds : List ℕ) : value b (ds.dropWhile (· = 0)) = value b ds := by
  induction ds with
  | nil => rfl
  | cons d ds ih =>
    by_cases hd : d = 0
    · rw [List.dropWhile_cons_of_pos (by simpa using hd), ih, value_cons, hd, Nat.zero_mul, Nat.zero_add]
    · rw [List.dropWhile_cons_of_neg (by simpa using hd)]

/-! ## Long division -/

/-- The quotient of a text by `k`, digit by digit, and the remainder; `r` comes in from the left. -/
def divide (b k : ℕ) : ℕ → List ℕ → List ℕ × ℕ
  | r, [] => ([], r)
  | r, d :: ds =>
    let t := r * b + d
    let out := divide b k (t % k) ds
    (t / k :: out.1, out.2)

@[simp] theorem divide_nil (b k r : ℕ) : divide b k r [] = ([], r) := rfl

theorem divide_cons (b k r d : ℕ) (ds : List ℕ) :
    divide b k r (d :: ds) = ((r * b + d) / k :: (divide b k ((r * b + d) % k) ds).1, (divide b k ((r * b + d) % k) ds).2) := rfl

@[simp] theorem length_divide (b k r : ℕ) (ds : List ℕ) : (divide b k r ds).1.length = ds.length := by
  induction ds generalizing r with
  | nil => rfl
  | cons d ds ih => rw [divide_cons, List.length_cons, ih, List.length_cons]

/-- The quotient and the remainder make up the number, with what comes in. -/
theorem divide_value (b k r : ℕ) (ds : List ℕ) :
    k * value b (divide b k r ds).1 + (divide b k r ds).2 = r * b ^ ds.length + value b ds := by
  induction ds generalizing r with
  | nil => simp
  | cons d ds ih =>
    have hsplit := Nat.div_add_mod (r * b + d) k
    rw [divide_cons]
    simp only [value_cons, length_divide]
    calc k * ((r * b + d) / k * b ^ ds.length + value b (divide b k ((r * b + d) % k) ds).1) + (divide b k ((r * b + d) % k) ds).2
      _ = k * ((r * b + d) / k) * b ^ ds.length +
          (k * value b (divide b k ((r * b + d) % k) ds).1 + (divide b k ((r * b + d) % k) ds).2) := by ring
      _ = (k * ((r * b + d) / k) + (r * b + d) % k) * b ^ ds.length + value b ds := by rw [ih]; ring
      _ = r * b ^ (d :: ds).length + (d * b ^ ds.length + value b ds) := by
        rw [hsplit, List.length_cons, Nat.pow_succ]
        ring

/-- The remainder is below the divisor. -/
theorem divide_lt (hr : r < k) (b : ℕ) (ds : List ℕ) : (divide b k r ds).2 < k := by
  induction ds generalizing r with
  | nil => exact hr
  | cons d ds ih => exact ih (Nat.mod_lt _ (Nat.zero_lt_of_lt hr))

/-- The quotient is a text of digits. -/
theorem divide_digits (hr : r < k) (hds : ∀ d ∈ ds, d < b) : ∀ q ∈ (divide b k r ds).1, q < b := by
  induction ds generalizing r with
  | nil => exact fun q hq => nomatch hq
  | cons d ds ih =>
    rw [List.forall_mem_cons] at hds
    rw [divide_cons, List.forall_mem_cons]
    refine ⟨Nat.div_lt_of_lt_mul ?_, ih (Nat.mod_lt _ (Nat.zero_lt_of_lt hr)) hds.2⟩
    calc r * b + d
      _ < r * b + b := Nat.add_lt_add_left hds.1 _
      _ = (r + 1) * b := by ring
      _ ≤ k * b := Nat.mul_le_mul_right b hr

/-- The quotient by `k`. -/
theorem divide_quotient (hk : 0 < k) (b : ℕ) (ds : List ℕ) : value b (divide b k 0 ds).1 = value b ds / k := by
  have hvalue := divide_value b k 0 ds
  rw [Nat.zero_mul, Nat.zero_add] at hvalue
  rw [← hvalue, Nat.mul_add_div hk, Nat.div_eq_of_lt (divide_lt hk b ds), Nat.add_zero]

/-- The remainder by `k`. -/
theorem divide_remainder (hk : 0 < k) (b : ℕ) (ds : List ℕ) : (divide b k 0 ds).2 = value b ds % k := by
  have hvalue := divide_value b k 0 ds
  rw [Nat.zero_mul, Nat.zero_add] at hvalue
  rw [← hvalue, Nat.mul_add_mod, Nat.mod_eq_of_lt (divide_lt hk b ds)]

/-! ## Loops that divide -/

/-- The digits of a number, the lowest first, at least one. -/
def digits (k n : ℕ) : List ℕ := if n = 0 then [0] else Nat.digits k n

/-- The lowest digit, and the others where the quotient leaves any. -/
theorem digits_eq (hk : 1 < k) (n : ℕ) : digits k n = n % k :: if n / k = 0 then [] else digits k (n / k) := by
  rcases Nat.eq_zero_or_pos n with rfl | hn
  · rw [digits, if_pos rfl, Nat.zero_mod, Nat.zero_div, if_pos rfl]
  · rw [digits, if_neg (Nat.ne_of_gt hn), Nat.digits_def' hk hn]
    by_cases hq : n / k = 0
    · rw [if_pos hq, hq, Nat.digits_zero]
    · rw [if_neg hq, digits, if_neg hq]

/-- A number below `k ^ m` has at most `m` digits. -/
theorem length_digits_le (hk : 1 < k) {m : ℕ} (hm : 0 < m) (h : n < k ^ m) : (digits k n).length ≤ m := by
  induction m generalizing n with
  | zero => exact absurd hm (Nat.lt_irrefl 0)
  | succ m ih =>
    rw [digits_eq hk, List.length_cons]
    by_cases hq : n / k = 0
    · rw [if_pos hq, List.length_nil]
      exact Nat.le_add_left 1 m
    · have hlt : n / k < k ^ m := Nat.div_lt_of_lt_mul (by rwa [Nat.pow_succ, Nat.mul_comm] at h)
      have hpos : 0 < m := Nat.pos_of_ne_zero fun hzero => hq (by rw [hzero] at hlt; exact Nat.lt_one_iff.mp hlt)
      rw [if_neg hq]
      exact Nat.succ_le_succ (ih hpos hlt)

/-- A turn that divides the number by `k` and puts the remainder behind what is collected, until the quotient is zero. -/
def DigitTurn {σ β : Type*} (turn : σ → Option (σ ⊕ β)) (k : ℕ) (Inv : σ → Prop) (num : σ → ℕ) (out : σ → List ℕ)
    (Post : β → List ℕ → Prop) : Prop :=
  ∀ s, Inv s →
    (num s / k ≠ 0 ∧ ∃ s', turn s = some (.inl s') ∧ Inv s' ∧ num s' = num s / k ∧ out s' = out s ++ [num s % k]) ∨
      (num s / k = 0 ∧ ∃ result, turn s = some (.inr result) ∧ Post result (out s ++ [num s % k]))

/-- The rule for such loops. With fuel above the number of digits the loop ends, and has collected them all. -/
theorem iterate_digits {σ β : Type*} {turn : σ → Option (σ ⊕ β)} {Inv : σ → Prop} {num : σ → ℕ} {out : σ → List ℕ}
    {Post : β → List ℕ → Prop} (hk : 1 < k) (hturn : DigitTurn turn k Inv num out Post) {s : σ} (hs : Inv s) {fuel : ℕ}
    (hfuel : (digits k (num s)).length < fuel) :
    ∃ result, Loop.iterate turn fuel s = some result ∧ Post result (out s ++ digits k (num s)) := by
  have htotal : Loop.Turn turn (fun s' => Inv s' ∧ out s' ++ digits k (num s') = out s ++ digits k (num s))
      (fun s' => (digits k (num s')).length) fun result => Post result (out s ++ digits k (num s)) := by
    rintro s' ⟨hinv, hcollected⟩
    have hdigits := digits_eq hk (num s')
    rcases hturn s' hinv with ⟨hq, s'', hstep, hinv', hnum, hout⟩ | ⟨hq, result, hstep, hpost⟩
    · rw [if_neg hq, ← hnum] at hdigits
      refine .inl ⟨s'', hstep, ⟨hinv', ?_⟩, ?_⟩
      · rw [hout, List.append_assoc, List.singleton_append, ← hdigits, hcollected]
      · change (digits k (num s'')).length < (digits k (num s')).length
        rw [hdigits, List.length_cons]
        exact Nat.lt_succ_self _
    · rw [if_pos hq] at hdigits
      rw [hdigits] at hcollected
      exact .inr ⟨result, hstep, hcollected ▸ hpost⟩
  exact Loop.iterate_of_variant htotal ⟨hs, rfl⟩ hfuel

end Radix
