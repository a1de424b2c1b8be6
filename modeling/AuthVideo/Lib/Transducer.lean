import Mathlib.Data.List.Basic

/-!
# Transducers

A transducer turns one input after the other into an output, and its state goes on from turn to turn. One that follows another
gives the inputs of the first back exactly when it does so in every turn.
-/

namespace Transducer

variable {σ τ α β : Type*}

/-- The outputs of a run. -/
def run (turn : σ → α → σ × β) : σ → List α → List β
  | _, [] => []
  | s, a :: as => (turn s a).2 :: run turn (turn s a).1 as

/-- The state after a run. -/
def after (turn : σ → α → σ × β) : σ → List α → σ
  | s, [] => s
  | s, a :: as => after turn (turn s a).1 as

section Rules

variable {turn : σ → α → σ × β} {back : τ → β → τ × α}

@[simp] theorem run_nil (s : σ) : run turn s [] = [] := rfl

@[simp] theorem run_cons (s : σ) (a : α) (as : List α) : run turn s (a :: as) = (turn s a).2 :: run turn (turn s a).1 as := rfl

@[simp] theorem after_nil (s : σ) : after turn s [] = s := rfl

@[simp] theorem after_cons (s : σ) (a : α) (as : List α) : after turn s (a :: as) = after turn (turn s a).1 as := rfl

theorem run_append (s : σ) (as bs : List α) : run turn s (as ++ bs) = run turn s as ++ run turn (after turn s as) bs := by
  induction as generalizing s with
  | nil => rfl
  | cons a as ih => rw [List.cons_append, run_cons, ih, run_cons, after_cons, List.cons_append]

/-- What holds at every turn of a run, at its first turn and at those that follow. -/
theorem forall_turns_cons {P : σ → α → Prop} {s : σ} {a : α} {as : List α} :
    (∀ earlier b later, a :: as = earlier ++ b :: later → P (after turn s earlier) b) ↔
      P s a ∧ ∀ earlier b later, as = earlier ++ b :: later → P (after turn (turn s a).1 earlier) b := by
  constructor
  · intro h
    exact ⟨h [] a as rfl, fun earlier b later hsplit => h (a :: earlier) b later (by rw [hsplit, List.cons_append])⟩
  · rintro ⟨hhead, htail⟩ earlier b later hsplit
    cases earlier with
    | nil =>
      rw [List.nil_append, List.cons.injEq] at hsplit
      rw [after_nil, ← hsplit.1]
      exact hhead
    | cons c earlier =>
      rw [List.cons_append, List.cons.injEq] at hsplit
      rw [after_cons, ← hsplit.1]
      exact htail earlier b later hsplit.2

/-- The round trip rule. If one turn of the second after one of the first gives the input back exactly when `P` holds of it and
the state before it, then the inputs of a run come back exactly when `P` holds at each turn. -/
theorem run_run_eq_iff {P : σ → α → Prop} (hturn : ∀ s t a, (back t (turn s a).2).2 = a ↔ P s a) (s : σ) (t : τ)
    (as : List α) :
    run back t (run turn s as) = as ↔ ∀ earlier a later, as = earlier ++ a :: later → P (after turn s earlier) a := by
  induction as generalizing s t with
  | nil =>
    refine ⟨fun _ earlier a later hsplit => ?_, fun _ => rfl⟩
    cases earlier <;> cases hsplit
  | cons a as ih => rw [forall_turns_cons, run_cons, run_cons, List.cons.injEq, hturn, ih]

/-- The simulation rule. Two transducers that, in related states, give the same output and go to related states give the same
outputs over every run. -/
theorem run_eq_of_simulation {ρ : Type*} {turn' : ρ → α → ρ × β} (Rel : σ → ρ → Prop)
    (hturn : ∀ s r a, Rel s r → (turn s a).2 = (turn' r a).2 ∧ Rel (turn s a).1 (turn' r a).1) {s : σ} {r : ρ}
    (h : Rel s r) (as : List α) : run turn s as = run turn' r as := by
  induction as generalizing s r with
  | nil => rfl
  | cons a as ih =>
    obtain ⟨hout, hnext⟩ := hturn s r a h
    rw [run_cons, run_cons, hout, ih hnext]

end Rules

/-! ## Counters that run down -/

/-- `n` places of which the first `r` are left out and the others marked. -/
def marks (r n : ℕ) : List Bool := List.replicate (min r n) false ++ List.replicate (n - r) true

@[simp] theorem marks_zero (r : ℕ) : marks r 0 = [] := by simp [marks]

/-- The places of two stretches, with what the first one leaves of the counter. -/
theorem marks_append (r m n : ℕ) : marks r m ++ marks (r - m) n = marks r (m + n) := by
  rcases Nat.le_total r m with hle | hle
  · have hfirst : min r m = r := Nat.min_eq_left hle
    have hsum : min r (m + n) = r := Nat.min_eq_left (by omega)
    have hrest : m + n - r = m - r + n := by omega
    rw [marks, marks, marks, hfirst, hsum, hrest, Nat.sub_eq_zero_of_le hle, Nat.zero_min, Nat.sub_zero, List.replicate_zero,
      List.nil_append, List.append_assoc, ← List.replicate_add]
  · have hfirst : min r m = m := Nat.min_eq_right hle
    have hsum : min r (m + n) = m + min (r - m) n := by omega
    have hrest : n - (r - m) = m + n - r := by omega
    rw [marks, marks, marks, hfirst, hsum, hrest, Nat.sub_eq_zero_of_le hle, List.replicate_zero, List.append_nil,
      ← List.append_assoc, ← List.replicate_add]

/-- The counter rule. Where each turn leaves out what its counter allows and takes it off the counter, a run leaves out the first
places of all its stretches together. -/
theorem flatten_run_of_counter {turn : σ → α → σ × List Bool} (counter : σ → ℕ) (stretch : α → List β) {as : List α}
    (hturn : ∀ a ∈ as, ∀ s, (turn s a).2 = marks (counter s) (stretch a).length ∧
      counter (turn s a).1 = counter s - (stretch a).length) (s : σ) :
    (run turn s as).flatten = marks (counter s) (as.map stretch).flatten.length := by
  induction as generalizing s with
  | nil => exact (marks_zero _).symm
  | cons a as ih =>
    rw [List.forall_mem_cons] at hturn
    obtain ⟨hout, hnext⟩ := hturn.1 s
    rw [run_cons, List.flatten_cons, hout, ih hturn.2, hnext, marks_append, List.map_cons, List.flatten_cons, List.length_append]

end Transducer
