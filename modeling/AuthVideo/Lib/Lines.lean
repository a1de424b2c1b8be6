import AuthVideo.Lib.Search

/-!
# Lines that arrive in pieces

A line has none of the first of the two characters that end it, so a stream of lines that is cut anywhere is some lines and the
beginning of one, or of its end.
-/

namespace Lines

variable {α : Type*} {c d : α}

/-- The beginning of a line, without its end. -/
def Unfinished (c : α) (t : List α) : Prop := ∃ l, c ∉ l ∧ t <+: l ++ [c]

theorem unfinished_nil : Unfinished c [] := ⟨[], List.not_mem_nil, List.nil_prefix⟩

/-- Where a stream is cut: in its first line, or behind that. -/
theorem cut {l rest p : List α} (hl : c ∉ l) (hp : p <+: l ++ (c :: d :: rest)) :
    (Unfinished c p ∧ p.length < l.length + 2) ∨ ∃ p', p = l ++ (c :: d :: p') ∧ p' <+: rest := by
  rcases Nat.lt_or_ge p.length (l.length + 2) with hlt | hge
  · refine Or.inl ⟨⟨l, hl, ?_⟩, hlt⟩
    have hlong : l ++ [c] <+: l ++ (c :: d :: rest) := ⟨d :: rest, by simp⟩
    exact List.prefix_of_prefix_length_le hp hlong (by simp; omega)
  · have hlong : l ++ [c, d] <+: l ++ (c :: d :: rest) := ⟨rest, by simp⟩
    obtain ⟨p', rfl⟩ := List.prefix_of_prefix_length_le hlong hp (by simpa using hge)
    refine Or.inr ⟨p', by simp, ?_⟩
    simpa using hp

/-- An unfinished line has no end in it. -/
theorem Unfinished.no_end (hcd : c ≠ d) {t : List α} (h : Unfinished c t) : ¬ [c, d] <:+: t := by
  obtain ⟨l, hl, ht⟩ := h
  intro hpart
  obtain ⟨s, u, heq⟩ := hpart.trans ht.isInfix
  rcases List.eq_nil_or_concat' u with rfl | ⟨u, e, rfl⟩
  · have hlast := congrArg List.getLast? heq
    simp at hlast
    exact hcd hlast.symm
  · have hends : (s ++ [c, d] ++ u) ++ [e] = l ++ [c] := by simpa using heq
    have hlast := (List.append_inj' hends rfl).1
    exact hl (hlast ▸ by simp)

/-- Nor has it one behind the second character of an end. -/
theorem Unfinished.no_end_cons (hcd : c ≠ d) {t : List α} (h : Unfinished c t) : ¬ [c, d] <:+: d :: t := by
  obtain ⟨l, hl, ht⟩ := h
  refine Unfinished.no_end hcd ⟨d :: l, ?_, ?_⟩
  · rw [List.mem_cons, not_or]
    exact ⟨hcd, hl⟩
  · rw [List.cons_append]
    exact List.cons_prefix_cons.mpr ⟨rfl, ht⟩

/-- Lines with their ends. -/
def joined (c d : α) (ls : List (List α)) : List α := (ls.map fun l => l ++ [c, d]).flatten

/-- Lines with the ends between them. -/
def between (c d : α) (l : List α) (ls : List (List α)) : List α := l ++ (ls.map fun l => [c, d] ++ l).flatten

@[simp] theorem joined_nil : joined c d ([] : List (List α)) = [] := rfl

@[simp] theorem joined_cons (l : List α) (ls : List (List α)) : joined c d (l :: ls) = l ++ (c :: d :: joined c d ls) := by
  simp [joined]

theorem joined_append (ls ls' : List (List α)) : joined c d (ls ++ ls') = joined c d ls ++ joined c d ls' := by
  simp [joined]

/-- The last end is the one that is not between two lines. -/
theorem joined_eq_between (l : List α) (ls : List (List α)) (t : List α) :
    joined c d (l :: ls) ++ t = between c d l ls ++ (c :: d :: t) := by
  induction ls generalizing l with
  | nil => simp [between]
  | cons l' ls ih =>
    rw [joined_cons, List.append_assoc, List.cons_append, List.cons_append, ih l']
    simp [between]

/-- Lines with their ends are not an unfinished one. -/
theorem not_unfinished_joined (hcd : c ≠ d) (l : List α) (ls : List (List α)) : ¬ Unfinished c (joined c d (l :: ls)) :=
  fun h => h.no_end hcd ⟨l, joined c d ls, by simp⟩

/-- An unfinished line in front of an empty one. -/
theorem Unfinished.eq_nil_or (hcd : c ≠ d) {p q t : List α} (hp : Unfinished c p) (h : p ++ q = c :: d :: t) : p = [] ∨ p = [c] := by
  rcases p with _ | ⟨b, _ | ⟨b', p⟩⟩
  · exact Or.inl rfl
  · simp only [List.cons_append, List.cons.injEq] at h
    exact Or.inr (by rw [h.1])
  · simp only [List.cons_append, List.cons.injEq] at h
    obtain ⟨rfl, rfl, -⟩ := h
    exact absurd (List.prefix_append [b, b'] p).isInfix (hp.no_end hcd)

/-- A stream of lines that is cut anywhere. -/
theorem cut_joined {ls : List (List α)} (hls : ∀ l ∈ ls, c ∉ l) {p : List α} (hp : p <+: joined c d ls) :
    ∃ m t, m ≤ ls.length ∧ p = joined c d (ls.take m) ++ t ∧ t <+: joined c d (ls.drop m) ∧ Unfinished c t := by
  induction ls generalizing p with
  | nil =>
    obtain rfl := List.prefix_nil.mp hp
    exact ⟨0, [], le_refl 0, rfl, List.nil_prefix, unfinished_nil⟩
  | cons l ls ih =>
    rw [List.forall_mem_cons] at hls
    rw [joined_cons] at hp
    rcases cut hls.1 hp with ⟨hunfinished, -⟩ | ⟨p', rfl, hp'⟩
    · exact ⟨0, p, Nat.zero_le _, rfl, by simpa using hp, hunfinished⟩
    · obtain ⟨m, t, hm, rfl, ht, hunfinished⟩ := ih hls.2 hp'
      exact ⟨m + 1, t, Nat.succ_le_succ hm, by simp, by simpa using ht, hunfinished⟩

variable [DecidableEq α]

/-- The first end in a stream. -/
theorem first_end {l : List α} (hl : c ∉ l) (rest : List α) : Search.first [c, d] (l ++ (c :: d :: rest)) = some l.length :=
  Search.first_append hl rest

/-- The last end in a stream that is cut. -/
theorem last_end (hcd : c ≠ d) {t : List α} (ht : Unfinished c t) (s : List α) :
    Search.last [c, d] (s ++ (c :: d :: t)) = some s.length :=
  Search.last_append (ht.no_end_cons hcd) s

/-- There is no end in an unfinished line. -/
theorem first_unfinished (hcd : c ≠ d) {t : List α} (ht : Unfinished c t) : Search.first [c, d] t = none :=
  Search.first_eq_none_iff.mpr (ht.no_end hcd)

theorem last_unfinished (hcd : c ≠ d) {t : List α} (ht : Unfinished c t) : Search.last [c, d] t = none :=
  Search.last_eq_none_iff.mpr (ht.no_end hcd)

end Lines
