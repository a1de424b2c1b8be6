import Mathlib.Data.List.Basic
import Mathlib.Data.List.Nodup

/-!
# Patching a string at some places

A patch is a place and what is combined with the entry there. A string is patched one place after the other. Where the places are
different ones, each entry is combined with the one patch of its place, and the others stay.
-/

namespace Patch

variable {α β : Type*} (op : α → β → α)

/-- Patching one place after the other. -/
def apply (d : List α) (ps : List (ℕ × β)) : List α := ps.foldl (fun d p => d.modify p.1 (op · p.2)) d

@[simp] theorem apply_nil (d : List α) : apply op d [] = d := rfl

@[simp] theorem apply_cons (d : List α) (p : ℕ × β) (ps : List (ℕ × β)) :
    apply op d (p :: ps) = apply op (d.modify p.1 (op · p.2)) ps := rfl

/-- Patches in two goes. -/
theorem apply_append (d : List α) (ps qs : List (ℕ × β)) : apply op d (ps ++ qs) = apply op (apply op d ps) qs :=
  List.foldl_append

/-- Nothing is added and nothing is lost. -/
@[simp] theorem length_apply (d : List α) (ps : List (ℕ × β)) : (apply op d ps).length = d.length := by
  induction ps generalizing d with
  | nil => rfl
  | cons p ps ih => rw [apply_cons, ih, List.length_modify]

variable {op}

/-- An entry without a patch stays. -/
theorem getElem?_apply_of_not_mem {d : List α} {ps : List (ℕ × β)} {i : ℕ} (h : i ∉ ps.map Prod.fst) :
    (apply op d ps)[i]? = d[i]? := by
  induction ps generalizing d with
  | nil => rfl
  | cons p ps ih =>
    rw [List.map_cons, List.mem_cons, not_or] at h
    rw [apply_cons, ih h.2, List.getElem?_modify_ne _ d (Ne.symm h.1)]

/-- An entry with one patch is combined with it. -/
theorem getElem?_apply_of_mem {d : List α} {ps : List (ℕ × β)} {i : ℕ} {b : β} (hnodup : (ps.map Prod.fst).Nodup)
    (h : (i, b) ∈ ps) : (apply op d ps)[i]? = d[i]?.map (op · b) := by
  induction ps generalizing d with
  | nil => cases h
  | cons p ps ih =>
    rw [List.map_cons, List.nodup_cons] at hnodup
    rw [apply_cons]
    rcases List.mem_cons.mp h with rfl | htail
    · rw [getElem?_apply_of_not_mem hnodup.1, List.getElem?_modify_eq]
      rfl
    · have hne : p.1 ≠ i := fun heq => hnodup.1 (heq ▸ List.mem_map_of_mem htail)
      rw [ih hnodup.2 htail, List.getElem?_modify_ne _ d hne]

end Patch
