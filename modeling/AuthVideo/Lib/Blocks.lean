import Mathlib.Data.List.Basic

/-!
# Streams taken in blocks

A buffer takes one item at a time and hands its content on when it is full. After a stream of whole blocks it is empty again,
and what it handed on are the blocks of the stream.
-/

namespace Blocks

variable {σ α : Type*}

/-- The pieces of `n` items that a list is cut into from its start on. -/
def slices (n : ℕ) (l : List α) : List (List α) :=
  (List.range ((l.length + (n - 1)) / n)).map fun i => (l.drop (n * i)).take n

/-- One item into a buffer of `n`. A full one is worked off. -/
def push (n : ℕ) (work : σ → List α → σ) (z : σ × List α) (a : α) : σ × List α :=
  if z.2.length + 1 = n then (work z.1 (z.2 ++ [a]), []) else (z.1, z.2 ++ [a])

/-- A stream into a buffer. -/
def absorb (n : ℕ) (work : σ → List α → σ) (z : σ × List α) (l : List α) : σ × List α := l.foldl (push n work) z

section Rules

variable {n : ℕ} {work : σ → List α → σ}

/-- What fits beside the rest of the buffer is added to it. -/
theorem absorb_of_lt {s : σ} {buf l : List α} (h : buf.length + l.length < n) : absorb n work (s, buf) l = (s, buf ++ l) := by
  induction l generalizing buf with
  | nil => rw [List.append_nil]; rfl
  | cons a l ih =>
    rw [List.length_cons] at h
    have hpush : push n work (s, buf) a = (s, buf ++ [a]) := if_neg (by dsimp only; omega)
    have hrest : absorb n work (s, buf ++ [a]) l = (s, (buf ++ [a]) ++ l) :=
      ih (by rw [List.length_append, List.length_singleton]; omega)
    unfold absorb at hrest ⊢
    rw [List.foldl_cons, hpush, hrest, List.append_assoc]
    rfl

/-- A stream after another. -/
theorem absorb_append (z : σ × List α) (l l' : List α) : absorb n work z (l ++ l') = absorb n work (absorb n work z l) l' :=
  List.foldl_append

/-- A block into an empty buffer. -/
theorem absorb_block {s : σ} {l : List α} (hn : 0 < n) (h : l.length = n) : absorb n work (s, []) l = (work s l, []) := by
  obtain ⟨init, a, rfl⟩ : ∃ init a, l = init ++ [a] := by
    have hne : l ≠ [] := by
      rintro rfl
      exact absurd h (Nat.ne_of_lt hn)
    exact ⟨l.dropLast, l.getLast hne, (List.dropLast_append_getLast hne).symm⟩
  rw [List.length_append, List.length_singleton] at h
  have hinit : absorb n work (s, []) init = (s, init) := absorb_of_lt (by rw [List.length_nil]; omega)
  rw [absorb_append, hinit]
  exact if_pos h

/-- An item into a buffer that is full with it. -/
theorem push_of_full {z : σ × List α} {a : α} (h : z.2.length + 1 = n) : push n work z a = (work z.1 (z.2 ++ [a]), []) :=
  if_pos h

/-- An item into a buffer that has more room. -/
theorem push_of_ne {z : σ × List α} {a : α} (h : z.2.length + 1 ≠ n) : push n work z a = (z.1, z.2 ++ [a]) := if_neg h

/-- How much of a stream a buffer holds. -/
theorem length_absorb {z : σ × List α} (hz : z.2.length < n) (l : List α) :
    (absorb n work z l).2.length = (z.2.length + l.length) % n := by
  induction l generalizing z with
  | nil => exact (Nat.mod_eq_of_lt hz).symm
  | cons a l ih =>
    have hstep : absorb n work z (a :: l) = absorb n work (push n work z a) l := rfl
    rw [hstep, List.length_cons]
    by_cases hfull : z.2.length + 1 = n
    · rw [push_of_full hfull, ih (Nat.pos_of_ne_zero (by omega))]
      have hsum : z.2.length + (l.length + 1) = n + l.length := by omega
      rw [hsum, Nat.add_mod_left, List.length_nil, Nat.zero_add]
    · rw [push_of_ne hfull, ih (by rw [List.length_append, List.length_singleton]; omega)]
      rw [List.length_append, List.length_singleton, Nat.add_assoc, Nat.add_comm 1]

/-- A list of `k` blocks has `k` slices. -/
theorem slices_of_length {l : List α} {k : ℕ} (hn : 0 < n) (h : l.length = n * k) :
    slices n l = (List.range k).map fun i => (l.drop (n * i)).take n := by
  have hk : (l.length + (n - 1)) / n = k := by
    rw [h, Nat.mul_add_div hn, Nat.div_eq_of_lt (by omega), Nat.add_zero]
  rw [slices, hk]

/-- The first slice and the others. -/
theorem slices_cons {l : List α} {k : ℕ} (hn : 0 < n) (h : l.length = n * (k + 1)) :
    slices n l = l.take n :: slices n (l.drop n) := by
  have hdrop : (l.drop n).length = n * k := by
    rw [List.length_drop, h, Nat.mul_succ, Nat.add_sub_cancel]
  rw [slices_of_length hn h, slices_of_length hn hdrop, List.range_succ_eq_map, List.map_cons, List.map_map]
  simp only [Nat.mul_zero, List.drop_zero, List.drop_drop, Function.comp_def, Nat.mul_succ, Nat.add_comm n]

/-- The stream rule. A stream of whole blocks into an empty buffer is worked off slice by slice. -/
theorem absorb_eq_foldl_slices {s : σ} {l : List α} {k : ℕ} (hn : 0 < n) (h : l.length = n * k) :
    absorb n work (s, []) l = ((slices n l).foldl work s, []) := by
  induction k generalizing s l with
  | zero =>
    obtain rfl : l = [] := List.length_eq_zero_iff.mp h
    rw [slices_of_length hn h]
    rfl
  | succ k ih =>
    have hlen : l.length = n * k + n := by rw [h, Nat.mul_succ]
    have htake : (l.take n).length = n := by
      rw [List.length_take]
      omega
    have hdrop : (l.drop n).length = n * k := by
      rw [List.length_drop]
      omega
    calc absorb n work (s, []) l
        = absorb n work (absorb n work (s, []) (l.take n)) (l.drop n) := by rw [← absorb_append, List.take_append_drop]
      _ = ((slices n (l.drop n)).foldl work (work s (l.take n)), []) := by rw [absorb_block hn htake, ih hdrop]
      _ = ((slices n l).foldl work s, []) := by rw [slices_cons hn h, List.foldl_cons]

/-- The prefix rule. Two rows of blocks have the same first items exactly when each block of one has the first items of the
block of the other one, as many as are taken of it. -/
theorem take_flatMap_eq_iff {f g : ℕ → List α} (hf : ∀ j, (f j).length = n) (hg : ∀ j, (g j).length = n) (blocks taken : ℕ) :
    ((List.range blocks).flatMap f).take taken = ((List.range blocks).flatMap g).take taken ↔
      ∀ j < blocks, (f j).take (taken - n * j) = (g j).take (taken - n * j) := by
  induction blocks generalizing f g taken with
  | zero => simp
  | succ blocks ih =>
    have hrest := ih (fun j => hf (j + 1)) (fun j => hg (j + 1)) (taken - n)
    simp only [Nat.sub_sub, ← Nat.mul_succ, Nat.add_comm n] at hrest
    have hsplit : ∀ h : ℕ → List α, (∀ j, (h j).length = n) → ((List.range (blocks + 1)).flatMap h).take taken =
        (h 0).take taken ++ ((List.range blocks).flatMap fun j => h (j + 1)).take (taken - n) := by
      intro h hlen
      rw [List.range_succ_eq_map, List.flatMap_cons, List.flatMap_map, List.take_append, hlen]
    rw [hsplit f hf, hsplit g hg, Nat.forall_lt_succ_left, Nat.mul_zero, Nat.sub_zero, ← hrest]
    constructor
    · intro h
      exact List.append_inj h (by rw [List.length_take, List.length_take, hf, hg])
    · rintro ⟨hfirst, hothers⟩
      rw [hfirst, hothers]

end Rules

end Blocks
