import Mathlib.Data.List.Basic

/-!
# Lists of records with a key

A list of records is read at the first record of a key. A record is appended, whether or not its key is there; a change stops at
the first record of its key; a deletion removes every record of its key. What is read at one key does not depend on the rest.
-/

namespace Keyed

variable {α κ : Type*} [DecidableEq κ] (key : α → κ)

/-- The first record of a key. -/
def lookup (k : κ) (records : List α) : Option α := records.find? fun r => key r = k

/-- The change of the first record of a key. -/
def modifyFirst (k : κ) (f : α → α) : List α → List α
  | [] => []
  | r :: records => if key r = k then f r :: records else r :: modifyFirst k f records

/-- The records of the other keys. -/
def erase (k : κ) (records : List α) : List α := records.filter fun r => key r ≠ k

variable {key}

@[simp] theorem lookup_nil (k : κ) : lookup key k [] = none := rfl

theorem lookup_cons (k : κ) (r : α) (records : List α) :
    lookup key k (r :: records) = if key r = k then some r else lookup key k records := by
  by_cases h : key r = k <;> simp [lookup, h]

/-- A record that is appended is read where there was none. -/
theorem lookup_concat (k : κ) (records : List α) (r : α) :
    lookup key k (records ++ [r]) = (lookup key k records).or (if key r = k then some r else none) := by
  by_cases h : key r = k <;> simp [lookup, List.find?_append, h]

/-- A change that keeps the key is read at the key alone. -/
theorem lookup_modifyFirst {f : α → α} (hf : ∀ r, key (f r) = key r) (j k : κ) (records : List α) :
    lookup key j (modifyFirst key k f records) = if k = j then (lookup key j records).map f else lookup key j records := by
  induction records with
  | nil => simp [modifyFirst]
  | cons r records ih =>
    rw [modifyFirst]
    by_cases hk : key r = k
    · rw [if_pos hk, lookup_cons, lookup_cons, hf, hk]
      by_cases hj : k = j
      · simp [hj]
      · simp [hj]
    · rw [if_neg hk, lookup_cons, lookup_cons, ih]
      by_cases hj : k = j
      · subst hj
        simp [hk]
      · simp [hj]

/-- A deletion is read at the key alone. -/
theorem lookup_erase (j k : κ) (records : List α) :
    lookup key j (erase key k records) = if k = j then none else lookup key j records := by
  induction records with
  | nil => simp [erase]
  | cons r records ih =>
    rw [erase, List.filter_cons, lookup_cons]
    by_cases hk : key r = k
    · simp only [hk, ne_eq, not_true_eq_false, decide_false, Bool.false_eq_true, if_false]
      rw [← erase, ih]
      by_cases hj : k = j
      · simp [hj]
      · simp [hj]
    · simp only [ne_eq, hk, not_false_eq_true, decide_true, if_true]
      rw [lookup_cons, ← erase, ih]
      by_cases hj : k = j
      · subst hj
        simp [hk]
      · simp [hj]

end Keyed
