import Mathlib.Data.List.Basic
import Mathlib.Data.Nat.ModEq

/-!
# Windows of a circular buffer

A queue that lies in a buffer from a start on, each element in the slot after the last one and the first slot after the last.
The window grows at its end as long as it is shorter than the buffer, and shrinks at its start; no other slot matters to it.
-/

namespace Ring

variable {β : Type*} {buf : List β} {start : ℕ} {q : List β} {x y : β}

/-- The slot that comes after `pos`. -/
def next (n pos : ℕ) : ℕ := if pos + 1 = n then 0 else pos + 1

/-- `q` lies in the slots of `buf` from `start` on. -/
def Holds (buf : List β) (start : ℕ) (q : List β) : Prop :=
  q.length ≤ buf.length ∧ ∀ i < q.length, buf[(start + i) % buf.length]? = q[i]?

/-- The `n` slots from `start` on. -/
def window (buf : List β) (start n : ℕ) : List (Option β) := (List.range n).map fun i => buf[(start + i) % buf.length]?

theorem next_lt {n pos : ℕ} (h : pos < n) : next n pos < n := by
  unfold next
  split <;> omega

theorem next_eq {n pos : ℕ} (h : pos < n) : next n pos = (pos + 1) % n := by
  unfold next
  split
  · rename_i hlast
    rw [hlast, Nat.mod_self]
  · rw [Nat.mod_eq_of_lt (by omega)]

/-- Two slots of a window are the same one only at the same place. -/
theorem slot_inj {n start i j : ℕ} (hi : i < n) (hj : j < n) (h : (start + i) % n = (start + j) % n) : i = j :=
  (Nat.ModEq.add_left_cancel' start h).eq_of_lt_of_lt hi hj

theorem holds_nil (buf : List β) (start : ℕ) : Holds buf start [] :=
  ⟨Nat.zero_le _, fun _ h => absurd h (Nat.not_lt_zero _)⟩

/-- Only the slot of the start counts. -/
theorem holds_mod : Holds buf (start % buf.length) q ↔ Holds buf start q := by
  simp only [Holds, Nat.mod_add_mod]

/-- The first element is in the slot of the start. -/
theorem Holds.head (h : Holds buf start (x :: q)) : buf[start % buf.length]? = some x := by
  simpa using h.2 0 (by simp)

/-- The elements after the first one. -/
theorem Holds.tail (h : Holds buf start (x :: q)) : Holds buf (start + 1) q := by
  obtain ⟨hlen, hslots⟩ := h
  rw [List.length_cons] at hlen
  refine ⟨by omega, fun i hi => ?_⟩
  have hslot := hslots (i + 1) (by rw [List.length_cons]; omega)
  rwa [List.getElem?_cons_succ, show start + (i + 1) = start + 1 + i by omega] at hslot

/-- The slots of a window. -/
theorem Holds.window (h : Holds buf start q) : window buf start q.length = q.map some := by
  refine List.ext_getElem? fun i => ?_
  unfold Ring.window
  rw [List.getElem?_map, List.getElem?_map]
  rcases Nat.lt_or_ge i q.length with hlt | hge
  · rw [List.getElem?_range hlt, Option.map_some, h.2 i hlt, List.getElem?_eq_getElem hlt, Option.map_some]
  · rw [List.getElem?_eq_none (by simpa using hge), List.getElem?_eq_none hge]
    rfl

/-- A slot outside the window may change. -/
theorem Holds.set_of_ne {pos : ℕ} (h : Holds buf start q) (hpos : ∀ i < q.length, (start + i) % buf.length ≠ pos) :
    Holds (buf.set pos y) start q := by
  obtain ⟨hlen, hslots⟩ := h
  refine ⟨by rwa [List.length_set], fun i hi => ?_⟩
  rw [List.length_set, List.getElem?_set_ne (Ne.symm (hpos i hi))]
  exact hslots i hi

/-- The slot before the window may change as long as the window does not fill the buffer. -/
theorem Holds.set_before (h : Holds buf (start + 1) q) (hroom : q.length < buf.length) :
    Holds (buf.set (start % buf.length) y) (start + 1) q := by
  refine h.set_of_ne fun i hi heq => ?_
  have hzero : i + 1 = 0 := by
    have hslot : (start + (i + 1)) % buf.length = (start + 0) % buf.length := by
      rw [show start + (i + 1) = start + 1 + i by omega, heq, Nat.add_zero]
    exact slot_inj (by omega) (by omega) hslot
  omega

/-- The window grows by an element written after its last one. -/
theorem Holds.push (h : Holds buf start q) (hroom : q.length < buf.length) :
    Holds (buf.set ((start + q.length) % buf.length) x) start (q ++ [x]) := by
  have hkept : Holds (buf.set ((start + q.length) % buf.length) x) start q :=
    h.set_of_ne fun i hi heq => Nat.ne_of_lt hi (slot_inj (by omega) hroom heq)
  obtain ⟨-, hslots⟩ := hkept
  refine ⟨by simp only [List.length_append, List.length_singleton, List.length_set]; omega, fun i hi => ?_⟩
  rw [List.length_append, List.length_singleton] at hi
  rcases Nat.lt_or_ge i q.length with hlt | hge
  · rw [hslots i hlt, List.getElem?_append_left hlt]
  · obtain rfl : i = q.length := by omega
    have hslot : (start + q.length) % buf.length < buf.length := Nat.mod_lt _ (by omega)
    simp [hslot]

end Ring
