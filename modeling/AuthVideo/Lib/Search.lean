import Mathlib.Data.List.Infix

/-!
# Where a pattern stands in a list

The first and the last place, as `std::search` and `std::find_end` find them.
-/

namespace Search

variable {α : Type*} [DecidableEq α]

/-- The first place where a pattern stands. -/
def first (pat : List α) : List α → Option ℕ
  | [] => if pat = [] then some 0 else none
  | c :: s => if pat <+: c :: s then some 0 else (first pat s).map (· + 1)

/-- The last place where a pattern stands. -/
def last (pat : List α) : List α → Option ℕ
  | [] => if pat = [] then some 0 else none
  | c :: s =>
    match last pat s with
    | some i => some (i + 1)
    | none => if pat <+: c :: s then some 0 else none

theorem first_cons (pat : List α) (c : α) (s : List α) :
    first pat (c :: s) = if pat <+: c :: s then some 0 else (first pat s).map (· + 1) := rfl

/-- Where the search finds nothing, the pattern is not there. -/
theorem first_eq_none_iff {pat s : List α} : first pat s = none ↔ ¬ pat <:+: s := by
  induction s with
  | nil => by_cases hpat : pat = [] <;> simp [first, hpat]
  | cons c s ih =>
    unfold first
    rw [List.infix_cons_iff]
    split
    · simp_all
    · simp_all

/-- The same of the last place. -/
theorem last_eq_none_iff {pat s : List α} : last pat s = none ↔ ¬ pat <:+: s := by
  induction s with
  | nil => by_cases hpat : pat = [] <;> simp [last, hpat]
  | cons c s ih =>
    unfold last
    rw [List.infix_cons_iff]
    rcases hlast : last pat s with _ | i
    · have hpart := ih.mp hlast
      by_cases hpat : pat <+: c :: s <;> simp [hpat, hpart]
    · have hpart : pat <:+: s := by
        by_contra hnot
        rw [ih.mpr hnot] at hlast
        cases hlast
      simp [hpart]

omit [DecidableEq α] in
/-- A list that neither begins a pattern nor begins with it keeps it out. -/
theorem not_isPrefix_append {pat s : List α} (h : ¬ pat <+: s) (h' : ¬ s <+: pat) (t : List α) : ¬ pat <+: s ++ t := by
  intro hpat
  rcases List.prefix_or_prefix_of_prefix hpat (List.prefix_append s t) with h₁ | h₁
  · exact h h₁
  · exact h' h₁

/-- The pattern does not begin in the front. -/
theorem first_append_of_clash {pat s : List α} (hs : ∀ i < s.length, ¬ pat <+: s.drop i ∧ ¬ s.drop i <+: pat) (t : List α) :
    first pat (s ++ t) = (first pat t).map (s.length + ·) := by
  induction s with
  | nil =>
    rw [List.nil_append, List.length_nil]
    rcases first pat t with _ | i <;> simp
  | cons a s ih =>
    have hhead := hs 0 (by simp)
    have hnot := not_isPrefix_append hhead.1 hhead.2 t
    have htail : ∀ i < s.length, ¬ pat <+: s.drop i ∧ ¬ s.drop i <+: pat := fun i hi => hs (i + 1) (by simpa using hi)
    rw [List.drop_zero, List.cons_append] at hnot
    rw [List.cons_append, first_cons, if_neg hnot, ih htail, Option.map_map, List.length_cons]
    rcases first pat t with _ | i
    · rfl
    · simp only [Option.map_some, Function.comp]
      congr 1
      omega

/-- The pattern stands at the front. -/
theorem first_self {c : α} {pat : List α} (t : List α) : first (c :: pat) (c :: pat ++ t) = some 0 := by
  rw [List.cons_append, first_cons, if_pos (by simp)]

omit [DecidableEq α] in
/-- What the pattern begins with does not come in the front, so neither does the pattern. -/
theorem clash_of_notMem {c : α} {pat s : List α} (hs : c ∉ s) :
    ∀ i < s.length, ¬ c :: pat <+: s.drop i ∧ ¬ s.drop i <+: c :: pat := by
  intro i hi
  rw [List.drop_eq_getElem_cons hi]
  have hne : s[i] ≠ c := fun h => hs (h ▸ List.getElem_mem hi)
  exact ⟨fun h => hne (List.cons_prefix_cons.mp h).1.symm, fun h => hne (List.cons_prefix_cons.mp h).1⟩

/-- What the pattern begins with does not come earlier. -/
theorem first_append {c : α} {pat s : List α} (hs : c ∉ s) (t : List α) :
    first (c :: pat) (s ++ (c :: pat ++ t)) = some s.length := by
  rw [first_append_of_clash (clash_of_notMem hs), first_self]
  simp

/-- The pattern does not come again behind its first element, so this is its last place. -/
theorem last_append {c : α} {pat t : List α} (ht : ¬ c :: pat <:+: pat ++ t) (s : List α) :
    last (c :: pat) (s ++ (c :: pat ++ t)) = some s.length := by
  induction s with
  | nil =>
    rw [List.nil_append, List.cons_append]
    unfold last
    rw [last_eq_none_iff.mpr ht]
    simp
  | cons a s ih =>
    rw [List.cons_append]
    unfold last
    rw [ih, List.length_cons]

omit [DecidableEq α] in
/-- A pattern with no first element in a list is not in it. -/
theorem not_infix_of_notMem {c : α} {pat s : List α} (h : c ∉ s) : ¬ c :: pat <:+: s :=
  fun hpart => h (hpart.subset List.mem_cons_self)

end Search
