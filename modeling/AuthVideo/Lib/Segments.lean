import Mathlib.Data.List.Basic
import Mathlib.Data.List.Pairwise

/-!
# Cutting a string at marks

A mark is a position and a length. A string is cut at its marks into pieces, each a mark's own content and what follows it up
to the next mark. Pieces that have the same marks and the same lengths are cut at the same places, whatever they hold.
-/

namespace Segments

variable {α : Type*}

/-- The part of a string between two positions. -/
def slice (d : List α) (a b : ℕ) : List α := (d.drop a).take (b - a)

/-- Where the piece of a mark ends: at the next mark, or at the end of the string. -/
def next (n : ℕ) : List (ℕ × ℕ) → ℕ
  | [] => n
  | (pos, _) :: _ => pos

/-- The pieces of a string. -/
def cut (d : List α) : List (ℕ × ℕ) → List (List α × List α)
  | [] => []
  | (pos, len) :: marks =>
    (slice d pos (pos + len), slice d (pos + len) (next d.length marks)) :: cut d marks

/-- The string of some pieces. -/
def join (ps : List (List α × List α)) : List α := (ps.map fun p => p.1 ++ p.2).flatten

/-- The marks lie one after the other from a position on, inside a string of length `n`. -/
def Spaced (n : ℕ) : ℕ → List (ℕ × ℕ) → Prop
  | i, [] => i ≤ n
  | i, (pos, len) :: marks => i ≤ pos ∧ Spaced n (pos + len) marks

/-- Two lists of pieces have the same marks and the same lengths. -/
def SameShape (ps qs : List (List α × List α)) : Prop :=
  List.Forall₂ (fun p q => p.1 = q.1 ∧ p.2.length = q.2.length) ps qs

@[simp] theorem join_nil : join ([] : List (List α × List α)) = [] := rfl

@[simp] theorem join_cons (p : List α × List α) (ps : List (List α × List α)) :
    join (p :: ps) = p.1 ++ p.2 ++ join ps := rfl

@[simp] theorem cut_nil (d : List α) : cut d [] = [] := rfl

theorem length_slice {d : List α} {a b : ℕ} (hb : b ≤ d.length) : (slice d a b).length = b - a := by
  simp only [slice, List.length_take, List.length_drop]
  omega

/-- Spaced marks end inside the string. -/
theorem Spaced.le {n i : ℕ} {marks : List (ℕ × ℕ)} (h : Spaced n i marks) : i ≤ n := by
  induction marks generalizing i with
  | nil => exact h
  | cons m marks ih =>
    have := ih h.2
    have := h.1
    omega

/-- The next mark lies behind, and inside the string. -/
theorem Spaced.next {n i : ℕ} {marks : List (ℕ × ℕ)} (h : Spaced n i marks) : i ≤ next n marks ∧ next n marks ≤ n := by
  cases marks with
  | nil => exact ⟨h, Nat.le_refl n⟩
  | cons m marks =>
    have := h.2.le
    exact ⟨h.1, by simp only [Segments.next]; omega⟩

/-- The part up to a position and the rest from there. -/
theorem slice_append_drop (d : List α) {a b : ℕ} (hab : a ≤ b) : slice d a b ++ d.drop b = d.drop a := by
  rw [slice, show d.drop b = (d.drop a).drop (b - a) by rw [List.drop_drop, Nat.add_sub_cancel' hab]]
  exact List.take_append_drop _ _

/-- The pieces make up the string from the first mark on. -/
theorem join_cut (d : List α) {i : ℕ} {marks : List (ℕ × ℕ)} (h : Spaced d.length i marks) :
    join (cut d marks) = d.drop (next d.length marks) := by
  induction marks generalizing i with
  | nil => simp [next]
  | cons m marks ih =>
    obtain ⟨pos, len⟩ := m
    have hnext := h.2.next
    rw [cut, join_cons, ih h.2, List.append_assoc, slice_append_drop d hnext.1,
      slice_append_drop d (Nat.le_add_right pos len)]
    rfl

/-- Pieces of the same shape have strings of the same length. -/
theorem SameShape.length_join {ps qs : List (List α × List α)} (h : SameShape ps qs) :
    (join ps).length = (join qs).length := by
  induction h with
  | nil => rfl
  | cons hpq _ ih => simp only [join_cons, List.length_append, hpq.1, hpq.2, ih]

theorem SameShape.symm {ps qs : List (List α × List α)} (h : SameShape ps qs) : SameShape qs ps := by
  induction h with
  | nil => exact .nil
  | cons hpq _ ih => exact .cons ⟨hpq.1.symm, hpq.2.symm⟩ ih

theorem SameShape.trans {ps qs rs : List (List α × List α)} (h : SameShape ps qs) (h' : SameShape qs rs) :
    SameShape ps rs := by
  induction h generalizing rs with
  | nil => exact h'
  | cons hpq _ ih =>
    cases h' with
    | cons hqr hrest => exact .cons ⟨hpq.1.trans hqr.1, hpq.2.trans hqr.2⟩ (ih hrest)

theorem SameShape.length_eq {ps qs : List (List α × List α)} (h : SameShape ps qs) : ps.length = qs.length := by
  induction h with
  | nil => rfl
  | cons _ _ ih => rw [List.length_cons, List.length_cons, ih]

/-- What holds of the lengths of some pieces holds of those of the same shape. -/
theorem SameShape.forall_length {ps qs : List (List α × List α)} {P : ℕ → Prop} (h : SameShape ps qs)
    (hps : ∀ p ∈ ps, P p.2.length) : ∀ q ∈ qs, P q.2.length := by
  induction h with
  | nil => exact hps
  | cons hpq _ ih =>
    rw [List.forall_mem_cons] at hps ⊢
    exact ⟨hpq.2 ▸ hps.1, ih hps.2⟩

/-- Pieces of the same shape have the same marks. -/
theorem SameShape.map_fst {ps qs : List (List α × List α)} (h : SameShape ps qs) : ps.map Prod.fst = qs.map Prod.fst := by
  induction h with
  | nil => rfl
  | cons hpq _ ih => rw [List.map_cons, List.map_cons, hpq.1, ih]

/-- The marks of the pieces are the contents of the string at the marks. -/
theorem map_fst_cut (d : List α) (marks : List (ℕ × ℕ)) :
    (cut d marks).map Prod.fst = marks.map fun m => slice d m.1 (m.1 + m.2) := by
  induction marks with
  | nil => rfl
  | cons m marks ih => rw [cut, List.map_cons, List.map_cons, ih]

/-- Pieces of the same shape with the same string are the same. -/
theorem SameShape.eq_of_join_eq {ps qs : List (List α × List α)} (h : SameShape ps qs) (hjoin : join ps = join qs) :
    ps = qs := by
  induction h with
  | nil => rfl
  | @cons p q ps qs hpq _ ih =>
    simp only [join_cons, List.append_assoc, hpq.1, List.append_cancel_left_eq] at hjoin
    obtain ⟨hrest, hjoin⟩ := List.append_inj hjoin hpq.2
    rw [ih hjoin, Prod.ext hpq.1 hrest]

/-- The piece in front of a string behind some first characters. -/
theorem slice_append_left (pre a b : List α) : slice (pre ++ (a ++ b)) pre.length (pre.length + a.length) = a := by
  simp [slice]

/-- A string of pieces that have the shape of what was cut is cut into these pieces. -/
theorem cut_eq_of_sameShape {d e : List α} (pre : List α) {i : ℕ} {marks : List (ℕ × ℕ)} {qs : List (List α × List α)}
    (hspaced : Spaced d.length i marks) (hpre : pre.length = next d.length marks) (hlen : e.length = d.length)
    (hshape : SameShape (cut d marks) qs) (he : e = pre ++ join qs) : cut e marks = qs := by
  induction marks generalizing i pre qs with
  | nil =>
    cases hshape
    rfl
  | cons m marks ih =>
    obtain ⟨pos, len⟩ := m
    rw [cut] at hshape
    cases hshape with
    | @cons _ q _ qs hq hqs =>
      obtain ⟨q1, q2⟩ := q
      obtain ⟨rfl, hq2⟩ := hq
      have hnext := hspaced.2.next
      have hle := hspaced.2.le
      have hlen1 : (slice d pos (pos + len)).length = len := by
        rw [length_slice hle]
        omega
      rw [length_slice hnext.2] at hq2
      simp only [Segments.next] at hpre
      simp only [join_cons, List.append_assoc] at he
      have h1 : slice e pos (pos + len) = slice d pos (pos + len) := by
        have := slice_append_left pre (slice d pos (pos + len)) (q2 ++ join qs)
        rwa [← he, hpre, hlen1] at this
      have h2 : slice e (pos + len) (next d.length marks) = q2 := by
        have := slice_append_left (pre ++ slice d pos (pos + len)) q2 (join qs)
        rw [List.append_assoc, ← he, List.length_append, hpre, hlen1, ← hq2, Nat.add_sub_cancel' hnext.1] at this
        exact this
      have hrest := ih (pre ++ slice d pos (pos + len) ++ q2) hspaced.2
        (by rw [List.length_append, List.length_append, hpre, hlen1, ← hq2, Nat.add_sub_cancel' hnext.1]) hqs
        (by rw [he]; simp)
      rw [cut, h1, hlen, h2, hrest]

/-- Where the pieces of a string are replaced by others of the same shape, the marks keep their content. -/
theorem slice_eq_of_sameShape {d e : List α} {i : ℕ} {marks : List (ℕ × ℕ)} {qs : List (List α × List α)}
    (hspaced : Spaced d.length i marks) (hshape : SameShape (cut d marks) qs) (hfirst : next d.length marks = 0)
    (he : e = join qs) {m : ℕ × ℕ} (hm : m ∈ marks) : slice e m.1 (m.1 + m.2) = slice d m.1 (m.1 + m.2) := by
  have hlen : e.length = d.length := by
    rw [he, ← hshape.length_join, join_cut d hspaced, hfirst, List.drop_zero]
  have hcut := cut_eq_of_sameShape [] hspaced hfirst.symm hlen hshape (by simpa using he)
  have hsame := hshape.map_fst
  rw [← hcut, map_fst_cut, map_fst_cut] at hsame
  exact (List.map_inj_left.mp hsame m hm).symm

/-! ## The places of the pieces -/

/-- The places of the pieces behind their marks: from the end of a mark to the next one. -/
def spans (n : ℕ) : List (ℕ × ℕ) → List (ℕ × ℕ)
  | [] => []
  | (pos, len) :: marks => (pos + len, next n marks) :: spans n marks

/-- Marks that lie behind a position lie behind an earlier one. -/
theorem Spaced.mono {n i j : ℕ} {marks : List (ℕ × ℕ)} (hij : i ≤ j) (h : Spaced n j marks) : Spaced n i marks := by
  cases marks with
  | nil => exact Nat.le_trans hij h
  | cons m marks => exact ⟨Nat.le_trans hij h.1, h.2⟩

/-- Marks may be left out. -/
theorem Spaced.filter {n i : ℕ} {marks : List (ℕ × ℕ)} (h : Spaced n i marks) (p : ℕ × ℕ → Bool) :
    Spaced n i (marks.filter p) := by
  induction marks generalizing i with
  | nil => exact h
  | cons m marks ih =>
    rw [List.filter_cons]
    split
    · exact ⟨h.1, ih h.2⟩
    · exact (ih h.2).mono (Nat.le_trans h.1 (Nat.le_add_right m.1 m.2))

/-- Each mark lies behind the position. -/
theorem Spaced.le_of_mem {n i : ℕ} {marks : List (ℕ × ℕ)} (h : Spaced n i marks) {m : ℕ × ℕ} (hm : m ∈ marks) : i ≤ m.1 := by
  induction marks generalizing i with
  | nil => cases hm
  | cons head marks ih =>
    rcases List.mem_cons.mp hm with rfl | hm
    · exact h.1
    · exact Nat.le_trans (Nat.le_trans h.1 (Nat.le_add_right head.1 head.2)) (ih h.2 hm)

/-- Each mark ends inside the string. -/
theorem Spaced.end_le {n i : ℕ} {marks : List (ℕ × ℕ)} (h : Spaced n i marks) {m : ℕ × ℕ} (hm : m ∈ marks) :
    m.1 + m.2 ≤ n := by
  induction marks generalizing i with
  | nil => cases hm
  | cons head marks ih =>
    rcases List.mem_cons.mp hm with rfl | hm
    · exact h.2.le
    · exact ih h.2 hm

/-- No mark begins before the one in front of it has ended. -/
theorem Spaced.pairwise {n i : ℕ} {marks : List (ℕ × ℕ)} (h : Spaced n i marks) :
    marks.Pairwise fun u v => u.1 + u.2 ≤ v.1 := by
  induction marks generalizing i with
  | nil => exact .nil
  | cons m marks ih => exact .cons (fun v hv => h.2.le_of_mem hv) (ih h.2)

/-- Each piece lies behind the position and inside the string. -/
theorem Spaced.span {n i : ℕ} {marks : List (ℕ × ℕ)} (h : Spaced n i marks) {u : ℕ × ℕ} (hu : u ∈ spans n marks) :
    i ≤ u.1 ∧ u.1 ≤ u.2 ∧ u.2 ≤ n := by
  induction marks generalizing i with
  | nil => cases hu
  | cons m marks ih =>
    have hle : i ≤ m.1 + m.2 := Nat.le_trans h.1 (Nat.le_add_right m.1 m.2)
    rcases List.mem_cons.mp hu with rfl | hu
    · exact ⟨hle, h.2.next⟩
    · obtain ⟨hfirst, hrest⟩ := ih h.2 hu
      exact ⟨Nat.le_trans hle hfirst, hrest⟩

/-- The next mark is in front of every piece but the first one. -/
theorem Spaced.next_le_span {n i : ℕ} {marks : List (ℕ × ℕ)} (h : Spaced n i marks) {u : ℕ × ℕ} (hu : u ∈ spans n marks) :
    Segments.next n marks ≤ u.1 := by
  cases marks with
  | nil => cases hu
  | cons m marks =>
    have hmark : Spaced n m.1 (m :: marks) := ⟨Nat.le_refl m.1, h.2⟩
    exact (hmark.span hu).1

/-- The pieces lie one after the other. -/
theorem Spaced.pairwise_spans {n i : ℕ} {marks : List (ℕ × ℕ)} (h : Spaced n i marks) :
    (spans n marks).Pairwise fun u v => u.2 ≤ v.1 := by
  induction marks generalizing i with
  | nil => exact .nil
  | cons m marks ih => exact .cons (fun v hv => h.2.next_le_span hv) (ih h.2)

/-- Two pieces are the same or lie apart. -/
theorem Spaced.eq_or_apart {n i : ℕ} {marks : List (ℕ × ℕ)} (h : Spaced n i marks) {u v : ℕ × ℕ} (hu : u ∈ spans n marks)
    (hv : v ∈ spans n marks) : u = v ∨ u.2 ≤ v.1 ∨ v.2 ≤ u.1 := by
  have hsymm : Std.Symm fun u v : ℕ × ℕ => u.2 ≤ v.1 ∨ v.2 ≤ u.1 := ⟨fun _ _ h => h.symm⟩
  have hpair : (spans n marks).Pairwise fun u v => u.2 ≤ v.1 ∨ v.2 ≤ u.1 := h.pairwise_spans.imp .inl
  by_cases heq : u = v
  · exact .inl heq
  · exact .inr (hpair.forall hu hv heq)

/-- A piece lies in front of a mark or behind it. -/
theorem Spaced.apart {n i : ℕ} {marks : List (ℕ × ℕ)} (h : Spaced n i marks) {m u : ℕ × ℕ} (hm : m ∈ marks)
    (hu : u ∈ spans n marks) : u.2 ≤ m.1 ∨ m.1 + m.2 ≤ u.1 := by
  induction marks generalizing i with
  | nil => cases hm
  | cons head marks ih =>
    rcases List.mem_cons.mp hm with rfl | hm
    · rcases List.mem_cons.mp hu with rfl | hu
      · exact .inr (Nat.le_refl _)
      · exact .inr (h.2.span hu).1
    · rcases List.mem_cons.mp hu with rfl | hu
      · cases marks with
        | nil => cases hm
        | cons second marks =>
          have hmark : Spaced n second.1 (second :: marks) := ⟨Nat.le_refl second.1, h.2.2⟩
          exact .inl (hmark.le_of_mem hm)
      · exact ih h.2 hm hu

end Segments
